import ShardTelemetry.Tier.SoloMethods
import ShardTelemetry.Tier.World

/-!
# The calls of a single writer

What the store holds while a call or `open` runs, and what it holds at the end: the catalog before
the call, or the one its transaction selects.
-/

namespace ShardTelemetry.Tier

open Cmd

variable {β : Type}

/-- The catalog after a group was published: the group is the last one, under its own sequence and
checkpoint, and the manifest it names holds the blocks of the source. -/
def Published (C : Codec β) (source : TierGroupSource) (before after : Catalog) : Prop :=
  ∃ (entry : CatalogGroupEntry) (manifest : TierGroupManifest),
    after.groups = before.groups ++ [entry] ∧
    after.root.generation = before.root.generation + 1 ∧
    after.root.latestCheckpoint = some source.checkpoint ∧
    (entry.groupSequence = source.groupSequence ∧ entry.checkpoint = source.checkpoint) ∧
    (manifest.groupSequence = source.groupSequence ∧ manifest.checkpoint = source.checkpoint ∧
      manifest.blocks = source.blocks) ∧
    C.size (.manifest manifest) = entry.manifestBytes ∧
    C.digest (.manifest manifest) = entry.manifestChecksum

/-- The catalog after old groups were retired: the others stay in order, and what is gone was older
than the cutoff. -/
def Retained (cutoff : Nat) (before after : Catalog) : Prop :=
  after.groups.Sublist before.groups ∧
    (∀ group ∈ before.groups, group ∉ after.groups → group.maxTimestampUnixNanos < cutoff) ∧
    after.root.generation = before.root.generation + 1 ∧
    after.root.latestCheckpoint = before.root.latestCheckpoint

/-- A call leaves the catalog as it was, or it selects the one its transaction describes. -/
def Call.Outcome (C : Codec β) (call : Call) (before after : Catalog) : Prop :=
  after = before ∨ after.rootKey ≠ none ∧
    match call with
    | .publishGroup source => Published C source before after
    | .retainSinceTimestamp cutoff => Retained cutoff before after
    | .reclaimRetiredObjects => False

section Calls

variable [DecidableEq β] {sh : Shared β}

/-- A single writer reads what its store holds. -/
theorem soloReading (hok : Allowed C good Next sh) {keys : Key → Prop} :
    Reading (soloRules C good adm Next) (fun _ s => Quiet sh s) sh.store.contents keys := by
  obtain ⟨cat, hheld, hnext⟩ := hok
  have hquiet : ∀ {effect : Effect β}, effect.quiet = true → ∀ {s s' r}, Quiet sh s →
      (soloRules C good adm Next).step effect s r s' →
      (soloRules C good adm Next).guar s s' ∧ Quiet sh s' := by
    rintro effect hquiet s s' r hs ⟨_, choice, _, hperf⟩
    obtain ⟨hstore, hls⟩ := perform_quiet hquiet hperf
    have hs' : Quiet sh s' := hs.trans ⟨hstore, hls ▸ fun _ hmem => hmem⟩
    exact ⟨⟨cat, hheld.quiet hs', hnext⟩, hs'⟩
  refine ⟨fun _ s s' hs hs' => hs.trans hs', fun hs hstep => ?_, fun hs hstep =>
    hquiet rfl hs hstep, fun hs hstep => hquiet rfl hs hstep, fun hs hstep => hquiet rfl hs hstep⟩
  obtain ⟨hguar, hs'⟩ := hquiet rfl hs hstep
  obtain ⟨_, choice, _, hperf⟩ := hstep
  refine ⟨hguar, hs', fun _ obj hr => ?_⟩
  rw [← hs.1]
  exact (perform_get hperf).2 obj hr

/-- A transaction leaves the old catalog or the one of the publication it prepared. -/
theorem withTransaction_safe {prepare : TierM β (α ⊕ α × Publication β)}
    (hnext : Next cat) (h : Consistent C good cat tier tier.root.retiredObjects sh)
    (hfree : good → tier.root.retiredObjects = [] ∨
      ∀ lease ∈ sh.leases, lease.rootKey ≠ tier.currentRootKey)
    (hprepare : ∀ t s, Consistent C good cat t t.root.retiredObjects s →
      Keeps (soloRules C good adm Next) (fun _ s' => Quiet s s') t (none : Option Identity)
        prepare fun res _ => ∀ a pub, res = .inr (a, pub) →
          ∃ nextGroups, Derives C s.store.contents t pub nextGroups ∧
            Next (Catalog.next pub nextGroups)) :
    Safe (soloRules C good adm Next) (withTransaction C prepare) tier
      (fun _ t' s' => ∃ cat', Next cat' ∧ Consistent C good cat' t' t'.root.retiredObjects s')
        sh := by
  refine Safe.bind (reclaimRetiredObjects_safe hnext h hfree) ?_ fun _ _ _ h => ⟨cat, hnext, h.1⟩
  rintro _ t₁ s₁ ⟨h₁, -⟩
  refine (recoverPendingTransaction_safe hnext h₁).bind (fun _ _ h₂ => ⟨cat, hnext, h₂.1⟩) fun _
    s₂ h₂ _ => ?_
  refine (verifyCurrentPointer_safe hnext h₂.1).bind (fun _ _ hs₃ => ⟨cat, hnext, h₂.1.quiet hs₃⟩)
    fun _ s₃ hs₃ _ => ?_
  have h₃ := h₂.1.quiet hs₃
  refine Safe.bind (hprepare _ s₃ h₃ s₃ (Quiet.refl s₃)) ?_ ?_
  · rintro res _ s₄ ⟨rfl, _, hs₄, hprep⟩
    have h₄ := h₃.quiet hs₄
    rcases res with a | ⟨a, pub⟩
    · exact Safe.pure fun s₅ hs₅ => ⟨cat, hnext, h₄.quiet hs₅⟩
    · obtain ⟨nextGroups, hder, hnext'⟩ := hprep _ rfl a pub rfl
      refine Safe.bind (commitTransaction_safe h₄ hder (fun key _ => by rw [hs₄.1]) hnext hnext') ?_
        fun _ _ _ h => h
      rintro _ t₅ s₅ ⟨cat', hnext₅, h₅⟩
      exact Safe.pure fun s₆ hs₆ => ⟨cat', hnext₅, h₅.quiet hs₆⟩
  · rintro e _ s₄ ⟨rfl, _, hs₄, -⟩
    exact ⟨cat, hnext, h₃.quiet hs₄⟩

omit [DecidableEq β] in
/-- What is derived from the tier's root derives from the catalog. -/
theorem Consistent.groups_eq (h : Consistent C good cat tier tier.root.retiredObjects sh) :
    catalogGroups sh.store.contents tier.root.pages = cat.groups := by
  rw [h.loaded.pages_eq, h.owned.stands.groups_eq]

/-- A call leaves the catalog before it or an outcome of its transaction, at every effect and at its
end, whether it returns or fails. -/
theorem Call.command_safe (call : Call) (hnext : ∀ after, call.Outcome C cat after → Next after)
    (h : Consistent C good cat tier tier.root.retiredObjects sh)
    (hfree : good → tier.root.retiredObjects = [] ∨
      ∀ lease ∈ sh.leases, lease.rootKey ≠ tier.currentRootKey) :
    Safe (soloRules C good adm Next) (call.command C) tier
      (fun _ t' s' => ∃ cat', Next cat' ∧ Consistent C good cat' t' t'.root.retiredObjects s')
        sh := by
  have hsame : Next cat := hnext cat (.inl rfl)
  cases call with
  | publishGroup source =>
    refine Safe.bind (withTransaction_safe hsame h hfree fun t s ht => ?_)
        (fun _ _ _ ⟨cat', hnext', h'⟩ =>
        Safe.pure fun _ hs' => ⟨cat', hnext', h'.quiet hs'⟩) fun _ _ _ h => h
    refine (prepareGroup_keeps (soloReading (ht.allowed hsame)) source).mono ?_
    intro res _ hprep mf pub heq
    obtain ⟨-, entry, hentry⟩ := hprep mf pub heq
    have hder := hentry.derives
    rw [ht.groups_eq] at hder
    refine ⟨_, hder, hnext _ (.inr ⟨by simp [Catalog.next], entry, mf, rfl, ?_,
      hentry.latestCheckpoint, ⟨hentry.entry_sequence, hentry.entry_checkpoint⟩,
      ⟨hentry.manifest_sequence, hentry.manifest_checkpoint, hentry.manifest_blocks⟩,
      hentry.fresh.bytes, hentry.fresh.checksum⟩)⟩
    rw [← ht.loaded.generation_eq]
    exact hder.generation
  | retainSinceTimestamp cutoff =>
    refine Safe.bind (withTransaction_safe hsame h hfree fun t s ht => ?_)
        (fun _ _ _ ⟨cat', hnext', h'⟩ =>
        Safe.pure fun _ hs' => ⟨cat', hnext', h'.quiet hs'⟩) fun _ _ _ h => h
    have hordered : (catalogGroups s.store.contents t.root.pages).Pairwise
        (·.groupSequence < ·.groupSequence) := by
      rw [ht.loaded.pages_eq]
      exact ht.owned.stands.ok.ordered
    refine (prepareRetention_keeps (soloReading (ht.allowed hsame)) cutoff hordered).mono ?_
    intro res _ hprep report pub heq
    obtain ⟨-, kept, dropped, hkeep⟩ := hprep report pub heq
    have hsplit := hkeep.split
    have hsublist := hkeep.sublist
    rw [ht.groups_eq] at hsplit hsublist
    refine ⟨kept, hkeep.derives, hnext _ (.inr ⟨by simp [Catalog.next], hsublist,
      fun group hmem hgone => ?_, ?_, ?_⟩)⟩
    · have hdropped := (List.mem_append.mp (hsplit.mem_iff.mpr hmem)).resolve_left hgone
      exact (hkeep.old group hdropped).1
    · rw [← ht.loaded.generation_eq]
      exact hkeep.derives.generation
    · refine hkeep.latestCheckpoint.trans ?_
      rw [ht.loaded.root_eq]
  | reclaimRetiredObjects =>
    exact (reclaimRetiredObjects_safe hsame h hfree).mono fun _ _ _ ⟨h', _⟩ => ⟨cat, hsame, h'⟩

/-! ## Opening -/

/-- Before the first publication a catalog is empty. -/
def Catalog.Based (space : Namespace) (catalog : Catalog) : Prop :=
  catalog.rootKey = none → catalog.root = .empty space

/-- Nothing is stored but what the catalog uses. -/
def Clean (catalog : Catalog) (view : View β) : Prop :=
  ∀ key, view key ≠ none → catalog.Uses view key

omit [DecidableEq β] in
/-- Without a `PENDING` record and with every retired object gone, the store is clean. -/
theorem Consistent.clean (h : Consistent C good cat tier [] sh)
    (hpend : sh.store.objects .pending = none) : Clean cat sh.store.contents := by
  intro key hkey
  rcases h.owned.accounted key hkey with rfl | huses | hret | ⟨tx, hrecord, -⟩
  · simp [Store.contents, hpend] at hkey
  · exact huses
  · obtain ⟨entry, hmem, rfl⟩ := List.mem_map.mp hret
    exact absurd ((h.gone entry hmem).resolve_left (by simp)) hkey
  · simp [Store.contents, hpend] at hrecord

/-- What `open` leaves: the same catalog, a tier that agrees with it if it succeeds, and a clean
store if it succeeds after every deadline. -/
def Opened (C : Codec β) (good : Prop) (admissible : Choice β → Prop) (catalog : Catalog)
    (r : TelemetryResult Unit) (tier : TelemetryObjectTier) (shared : Shared β) : Prop :=
  Held C good catalog shared ∧
    (r = .ok () → Consistent C good catalog tier tier.root.retiredObjects shared ∧
    ((∀ choice, admissible choice → ∀ entry ∈ catalog.root.retiredObjects,
      entry.deleteAfterUnixMillis ≤ choice.clock) → Clean catalog shared.store.contents))

section

omit [DecidableEq β]

theorem Held.opened_error (h : Held C good cat sh) : Opened C good adm cat (.error error) tier sh :=
  ⟨h, nofun⟩

/-- Without `CURRENT` the blank tier agrees with the store. -/
theorem Held.consistent_blank (conf) (h : Held C good cat sh)
    (hbased : cat.Based space) (hls : sh.leases = []) (hcur : sh.store.contents .current = none) :
    Consistent C good cat (.blank space conf) [] sh := by
  have hsel := h.owned.stands.selected
  have hrootKey : cat.rootKey = none := by
    cases hroot : cat.rootKey with
    | none => rfl
    | some key =>
      rw [Catalog.Selected, hroot] at hsel
      obtain ⟨ptr, hptr, -⟩ := hsel
      simp [hcur] at hptr
  rw [Catalog.Selected, hrootKey] at hsel
  refine ⟨h.owned, ⟨hrootKey.symm, ?_, by simp⟩, (Store.version_eq_none.mpr hcur).symm, ?_, ?_⟩
  · rw [hbased hrootKey]
    rfl
  · simp [hsel.2.2.1]
  · simp [hls]

/-- A tier that has loaded the root `CURRENT` selects agrees with the store. -/
theorem Held.consistent_loaded (tier : TelemetryObjectTier) (h : Held C good cat sh)
    (hls : sh.leases = []) (hcur : sh.store.contents .current = some (.pointer ptr))
    (hver : sh.store.version .current = some ver)
    (hroot : sh.store.contents ptr.rootKey = some (.root root)) :
    root = cat.root ∧ Consistent C good cat
      { tier with root, currentRootKey := some ptr.rootKey, currentVersion := some ver }
      root.retiredObjects sh := by
  have hsel := h.owned.stands.selected
  cases hrootKey : cat.rootKey with
  | none =>
    rw [Catalog.Selected, hrootKey] at hsel
    simp [hcur] at hsel
  | some key =>
    rw [Catalog.Selected, hrootKey] at hsel
    obtain ⟨pointer', hpointer', hkey, ⟨hroot', -⟩, -⟩ := hsel
    obtain rfl : ptr = pointer' := by simpa [hcur] using hpointer'
    obtain rfl : root = cat.root := by simpa [hkey, hroot'] using hroot.symm
    refine ⟨rfl, h.owned, ⟨by rw [hrootKey, hkey], rfl, fun _ hmem => hmem⟩, hver.symm,
      fun _ hmem => .inl hmem, ?_⟩
    simp [hls]

end

/-- `open` keeps the catalog. -/
theorem openCatalog_safe (conf : ObjectTierConfig) (hnext : Next cat)
    (h : Held C good cat sh) (hbased : cat.Based space) (hls : sh.leases = []) :
    Safe (soloRules C good adm Next) (openCatalog C) (.blank space conf)
      (fun r t' s' => Opened C good adm cat r t' s') sh := by
  have hok : ∀ {s}, Quiet sh s → Allowed C good Next s := fun hs => ⟨cat, h.quiet hs, hnext⟩
  have hfail : ∀ {s₁ : Shared β} {t}, Quiet sh s₁ → ∀ (e : TelemetryError) s', Quiet s₁ s' →
      Opened C good adm cat (.error e) t s' :=
    fun hs₁ e s' hs' => (h.quiet (hs₁.trans hs')).opened_error
  refine Safe.get_bind (Safe.ofExcept_bind (fun _ _ => ?_) (hfail (Quiet.refl sh)))
  refine (head_safe (hok (Quiet.refl sh))).bind (hfail (Quiet.refl sh)) fun observed s₁ hs₁
    hobserved => ?_
  cases observed with
  | none =>
    have hcur : sh.store.contents .current = none := by
      simpa [Store.contents] using hobserved.symm
    have h₁ := (h.consistent_blank conf hbased hls hcur).quiet hs₁
    refine Safe.mono (recoverPendingTransaction_safe hnext h₁) ?_
    rintro r _ s₂ ⟨rfl, h₂, hnone⟩
    exact ⟨h₂.1.held, fun hr => ⟨h₂.1, fun _ => h₂.1.clean (hnone () hr)⟩⟩
  | some md =>
    refine Safe.ofExcept_bind (fun _ _ => ?_) (hfail hs₁)
    refine (getObject_safe (hok hs₁)).bind (hfail hs₁) fun pointerObject s₂ hs₂ hget₂ => ?_
    have hs₂ : Quiet sh s₂ := hs₁.trans hs₂
    refine Safe.ofExcept_bind (fun _ _ => ?_) (hfail hs₂)
    refine Safe.ofExcept_bind (fun ptr hptr => ?_) (hfail hs₂)
    refine Safe.ofExcept_bind (fun _ _ => ?_) (hfail hs₂)
    refine (getObject_safe (hok hs₂)).bind (hfail hs₂) fun rootObject s₃ hs₃ hget₃ => ?_
    have hs₃ : Quiet sh s₃ := hs₂.trans hs₃
    refine Safe.ofExcept_bind (fun _ _ => ?_) (hfail hs₃)
    refine Safe.ofExcept_bind (fun root hroot => ?_) (hfail hs₃)
    refine Safe.ofExcept_bind (fun _ _ => ?_) (hfail hs₃)
    refine Safe.ofExcept_bind (fun _ _ => ?_) (hfail hs₃)
    refine Safe.ofExcept_bind (fun _ _ => ?_) (hfail hs₃)
    obtain ⟨stored, hput, rfl⟩ := Option.map_eq_some_iff.mp hobserved.symm
    have hcur : sh.store.contents .current = some (.pointer ptr) := by
      rw [← hs₁.1, hget₂, decodeJson_pointer hptr]
    have hroot' : sh.store.contents ptr.rootKey = some (.root root) := by
      rw [← hs₂.1, hget₃, decodeJson_root hroot]
    have hver : sh.store.version .current = some stored.version := by
      rw [Store.version, hput]
      rfl
    obtain ⟨rfl, h₀⟩ := h.consistent_loaded (.blank space conf) hls hcur hver hroot'
    refine Safe.set_bind ((recoverPendingTransaction_safe hnext (h₀.quiet hs₃)).bind
      (fun _ _ h₄ => h₄.1.held.opened_error) fun _ s₄ h₄ hnone => ?_)
    have hleases₄ : ∀ lease, lease ∉ s₄.leases := fun lease hlease => by
      simpa [hls] using hs₃.2 (h₄.2.2 hlease)
    refine (reclaimRetiredObjects_safe hnext h₄.1 fun hgood => .inr fun lease hlease =>
      absurd hlease (hleases₄ lease)).mono ?_
    rintro r t₅ s₅ ⟨h₅, hdel, hlate⟩
    refine ⟨h₅.held, fun hr => ⟨h₅, fun hdeadline => ?_⟩⟩
    have hempty := hlate hr (fun _ => rfl) hdeadline
    rw [hempty] at h₅
    exact h₅.clean (hdel.none_of_none hnone)

end Calls

end ShardTelemetry.Tier
