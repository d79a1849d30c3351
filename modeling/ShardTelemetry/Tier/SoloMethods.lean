import ShardTelemetry.Tier.SoloLoops

/-!
# The methods of a single writer

Each method keeps the tier in agreement with the store (`Consistent`), at every effect and at its
end, whether it returns or fails.
-/

namespace ShardTelemetry.Tier

open List Function Cmd

variable {β : Type} [DecidableEq β] {C : Codec β} {Next : Catalog → Prop} {cat : Catalog}
  {sh : Shared β}

/-! ## Reclamation -/

section Reclaim

omit [DecidableEq β]

theorem Consistent.of_mem_iff
    (h : Consistent C good cat tier rets sh) (hmem : ∀ entry, entry ∈ retired' ↔ entry ∈ rets) :
    Consistent C good cat tier retired' sh where
  owned := h.owned
  loaded := ⟨h.loaded.rootKey_eq, h.loaded.root_eq, fun entry hentry =>
    h.loaded.retired_mem entry ((hmem entry).mp hentry)⟩
  version := h.version
  gone entry hentry := (h.gone entry hentry).imp_left (hmem entry).mpr
  leases hgood lease hlease :=
    let hok := h.leases hgood lease hlease
    ⟨hok.owner, hok.intact, hok.bound,
      fun entry hentry => hok.deferred entry ((hmem entry).mp hentry), hok.current⟩

/-- Taking a fresh allocation is harmless while no lease holds the current root. -/
theorem Consistent.makeMut (h : Consistent C good cat tier rets sh)
    (hfree : good → ∀ lease ∈ sh.leases, lease.rootKey ≠ tier.currentRootKey) (remaining) :
    Consistent C good cat (tier.makeMut fun root => { root with retiredObjects := remaining })
      rets sh where
  owned := h.owned
  loaded := ⟨h.loaded.rootKey_eq, by
    rw [TelemetryObjectTier.makeMut, h.loaded.root_eq], h.loaded.retired_mem⟩
  version := h.version
  gone := h.gone
  leases hgood lease hlease :=
    let hok := h.leases hgood lease hlease
    ⟨hok.owner, hok.intact, hok.bound, hok.deferred, fun heq =>
      absurd heq (hfree hgood lease hlease)⟩

/-- A retired key that no lease reads may be deleted and forgotten. -/
theorem Consistent.forget (h : Consistent C good cat tier (entry :: rets) sh)
    (hdel : Erases [entry.objectKey] sh sh') (hgone : sh'.store.objects entry.objectKey = none)
    (hfree : good → ∀ lease ∈ sh.leases, entry.objectKey ∉ leaseKeys sh.store.contents lease) :
    Consistent C good cat { tier with
      retiredLeases := update tier.retiredLeases entry.objectKey none } rets sh' := by
  have hmem := h.loaded.retired_mem entry mem_cons_self
  obtain ⟨tx, path, hshape, -⟩ := h.owned.stands.ok.retired_shape entry hmem
  have h' := h.erases hdel
    (by simpa [hshape] using hshape ▸ h.owned.stands.retired_unused hmem)
    (by simpa using hfree)
  have hkeys : ∀ {lease : Lease}, good → lease ∈ sh.leases →
      leaseKeys sh'.store.contents lease = leaseKeys sh.store.contents lease := by
    intro lease hgood hlease
    refine leaseKeys_congr fun key hkey => (hdel.contents key).resolve_right fun ⟨heq, _⟩ => ?_
    obtain rfl := mem_singleton.mp heq
    exact hfree hgood lease hlease hkey
  refine ⟨h'.owned, ⟨h'.loaded.rootKey_eq, h'.loaded.root_eq, fun other hother => ?_⟩, h'.version,
    fun other hother => ?_, fun hgood lease hlease => ?_⟩
  · exact h'.loaded.retired_mem other (.tail _ hother)
  · rcases h'.gone other hother with hcons | hnone
    · rcases mem_cons.mp hcons with rfl | hrest
      · exact .inr (by rw [Store.contents, hgone]; rfl)
      · exact .inl hrest
    · exact .inr hnone
  · have hok := h'.leases hgood lease hlease
    refine ⟨hok.owner, hok.intact, hok.bound, fun other hother hkey => ?_, hok.current⟩
    have hne : other.objectKey ≠ entry.objectKey := by
      intro heq
      rw [hkeys hgood (hdel.2 hlease), heq] at hkey
      exact hfree hgood lease (hdel.2 hlease) hkey
    exact (update_of_ne hne _ _).trans (hok.deferred other (.tail _ hother) hkey)

end Reclaim

section

variable (hallow : Allowed C good Next sh)
include hallow

theorem unixTimeMillis_safe : Returns (soloRules C good adm Next) unixTimeMillis tier
      (fun now s' => Quiet sh s' ∧ ∃ choice, adm choice ∧ now = choice.clock) sh := by
  refine quiet_perform rfl hallow fun s₁ choice r s₂ hs₁ hchoice hperf s₃ hs₃ => ?_
  exact ⟨rfl, r, rfl, hs₁.trans hs₃, choice, hchoice, (perform_unixTimeMillis hperf).2⟩

theorem head_safe : Leaves (soloRules C good adm Next) (head key) tier (Quiet sh)
      (fun md _ => md = (sh.store.objects key).map fun stored =>
        C.metadata stored.object stored.version)
      sh := by
  refine quiet_attempt rfl hallow fun s₁ choice r s₂ hs₁ _ hperf s₃ hs₃ => ?_
  exact ⟨rfl, hs₁.trans hs₃, hs₁.1 ▸ (perform_head hperf).2⟩

theorem getObject_safe : Leaves (soloRules C good adm Next) (getObject key cap) tier (Quiet sh)
      (fun obj _ => sh.store.contents key = some obj) sh := by
  refine quiet_attempt rfl hallow fun s₁ choice r s₂ hs₁ _ hperf s₃ hs₃ => ?_
  exact ⟨rfl, hs₁.trans hs₃, hs₁.1 ▸ (perform_get hperf).2⟩

end

/-- An upgrade answers no only if no lease of the writer holds the allocation. -/
theorem upgrade_safe (handle) (hallow : Allowed C good Next sh) :
    Returns (soloRules C good adm Next) (upgrade handle) tier (fun answer s' => Quiet sh s' ∧
        (answer = false → ∀ lease ∈ s'.leases, lease.owner = 0 → handle ≠ some lease.handle) ∧
        (handle = none → answer = false)) sh := by
  cases handle with
  | none => exact Safe.pure fun s' hs' => ⟨rfl, false, rfl, hs', by simp, by simp⟩
  | some handle =>
    refine Safe.get_bind ?_
    split
    · exact Safe.pure fun s' hs' => ⟨rfl, true, rfl, hs', by simp, by simp⟩
    · refine quiet_perform rfl hallow fun s₁ choice r s₂ hs₁ _ hperf s₃ hs₃ => ?_
      refine ⟨rfl, r, rfl, hs₁.trans hs₃, fun hr lease hlease howner heq => ?_, nofun⟩
      have := (perform_leased hperf).2.mpr ⟨lease, hs₃.2 hlease, howner, (Option.some.inj heq).symm⟩
      simp [hr] at this

/-- The loop deletes exactly what no lease reads.  Without an error, and when every deadline has
passed and no weak reference is kept, nothing stays pending. -/
theorem reclaimLoop_safe (now) (rest pending) (err) (hnext : Next cat)
    (h : Consistent C good cat tier (rest ++ pending) sh) :
    Safe (soloRules C good adm Next) (reclaimLoop now rest pending err) tier
      (fun r t' s' => ∃ pending' error, r = .ok (pending', error) ∧
        t' = { tier with retiredLeases := t'.retiredLeases } ∧
        Erases (retiredKeys rest) sh s' ∧ Consistent C good cat t' pending' s' ∧
          (error = none → err = none ∧ ((∀ entry ∈ rest, entry.deleteAfterUnixMillis ≤ now) →
            (∀ key, tier.retiredLeases key = none) → pending' = pending))) sh := by
  induction rest generalizing tier sh pending err with
  | nil =>
    refine Safe.pure fun s' hs' => ⟨pending, err, rfl, rfl, Quiet.erases hs', h.quiet hs', ?_⟩
    exact fun herror => ⟨herror, fun _ _ => rfl⟩
  | cons entry rest ih =>
    refine Safe.get_bind ((upgrade_safe _ (h.allowed hnext)).bind ?_)
    rintro leased s' ⟨hs', hanswer, hnone⟩
    have h' := h.quiet hs'
    have htail : ∀ {s₁ s₂ : Shared β}, Erases (retiredKeys rest) s₁ s₂ →
        Erases (retiredKeys (entry :: rest)) s₁ s₂ :=
      fun h => h.mono (subset_cons_self _ _)
    -- The entry stays pending: it moves from the front of the list to its end.
    have hpend : ∀ {s''}, Consistent C good cat tier (entry :: rest ++ pending) s'' →
        Consistent C good cat tier (rest ++ (pending ++ [entry])) s'' :=
      fun h => h.of_mem_iff (by simp; tauto)
    split
    · next hdefer =>
      refine (ih (pending ++ [entry]) err (hpend h')).mono ?_
      rintro r t'' s'' ⟨pending', error, rfl, ht, hrest, hconsistent, hlate⟩
      refine ⟨pending', error, rfl, ht, (Quiet.erases hs').trans (htail hrest), hconsistent,
        fun herror => ⟨(hlate herror).1, fun hdeadline hweak => absurd hdefer ?_⟩⟩
      simpa [hnone (hweak _)] using hdeadline entry mem_cons_self
    · next hdelete =>
      rw [Bool.or_eq_true, not_or, Bool.not_eq_true] at hdelete
      have hfree : good → ∀ lease ∈ s'.leases,
          entry.objectKey ∉ leaseKeys s'.store.contents lease := by
        intro hgood lease hlease hkey
        have hok := h'.leases hgood lease hlease
        exact hanswer hdelete.1 lease hlease hok.owner (hok.deferred entry mem_cons_self hkey)
      have hmem := h'.loaded.retired_mem entry mem_cons_self
      obtain ⟨tx, path, hshape, -⟩ := h'.owned.stands.ok.retired_shape entry hmem
      have herase : ∀ s'', Erases [entry.objectKey] s' s'' →
          Consistent C good cat tier (entry :: rest ++ pending) s'' := fun s'' hdel =>
        h'.erases hdel (by simpa [hshape] using hshape ▸ h'.owned.stands.retired_unused hmem)
          (by simpa using hfree)
      refine (delete_safe fun s'' hdel => (herase s'' hdel).allowed hnext).observe_bind
        fun r s'' hdel hgone => ?_
      have herased : Erases (retiredKeys (entry :: rest)) sh s'' :=
        (Quiet.erases hs').trans (hdel.mono (by simp))
      cases r with
      | ok a =>
        refine Safe.modify_bind ((ih pending err (h'.forget hdel (hgone a rfl) hfree)).mono ?_)
        rintro r t₃ s₃ ⟨pending', error, rfl, ht, hrest, hconsistent, hlate⟩
        refine ⟨pending', error, rfl, ht, herased.trans (htail hrest), hconsistent,
          fun herror => ⟨(hlate herror).1, fun hdeadline hweak => (hlate herror).2 ?_ ?_⟩⟩
        · exact (forall_mem_cons.mp hdeadline).2
        · intro key
          by_cases heq : key = entry.objectKey
          · rw [heq]
            exact update_self _ _ _
          · exact (update_of_ne heq _ _).trans (hweak key)
      | error error =>
        refine (ih (pending ++ [entry]) (err <|> some error) (hpend (herase s'' hdel))).mono ?_
        rintro r t₃ s₃ ⟨pending', error', rfl, ht, hrest, hconsistent, hlate⟩
        refine ⟨pending', error', rfl, ht, herased.trans (htail hrest), hconsistent,
          fun herror => absurd (hlate herror).1 ?_⟩
        cases err <;> simp

/-- Reclaiming keeps the tier in agreement, if no lease holds the root it is about to detach. -/
theorem reclaimRetiredObjects_safe (hnext : Next cat)
    (h : Consistent C good cat tier tier.root.retiredObjects sh)
    (hfree : good → tier.root.retiredObjects = [] ∨
      ∀ lease ∈ sh.leases, lease.rootKey ≠ tier.currentRootKey) :
    Safe (soloRules C good adm Next) reclaimRetiredObjects tier
      (fun r t' s' => Consistent C good cat t' t'.root.retiredObjects s' ∧
        Erases (retiredKeys tier.root.retiredObjects) sh s' ∧
        (r = .ok () → (∀ key, tier.retiredLeases key = none) →
          (∀ choice, adm choice → ∀ entry ∈ tier.root.retiredObjects,
            entry.deleteAfterUnixMillis ≤ choice.clock) → t'.root.retiredObjects = [])) sh := by
  refine Safe.get_bind ?_
  split
  · next hempty =>
    exact Safe.pure fun s' hs' =>
      ⟨h.quiet hs', Quiet.erases hs', fun _ _ _ => by simpa using hempty⟩
  · next hne =>
    have hunleased' : good → ∀ lease ∈ sh.leases, lease.rootKey ≠ tier.currentRootKey :=
      fun hgood => (hfree hgood).resolve_left (by simpa using hne)
    have h₁ := h.makeMut hunleased' []
    refine Safe.modify_bind ((unixTimeMillis_safe (h₁.allowed hnext)).bind ?_)
    rintro _ s' ⟨hs', choice, hchoice, rfl⟩
    refine Safe.bind (reclaimLoop_safe choice.clock tier.root.retiredObjects [] none hnext
      ((h₁.quiet hs').of_mem_iff (by simp))) ?_ ?_
    · rintro _ t' s'' ⟨pending, error, heq, ht, hloop, hconsistent, hlate⟩
      cases heq
      refine Safe.modify_bind ?_
      have herased := (Quiet.erases hs').trans hloop
      have h₂ := hconsistent.makeMut (fun hgood lease hlease => by
        rw [ht]
        exact hunleased' hgood lease (herased.2 hlease)) pending
      cases error with
      | some error =>
        exact Safe.throw fun s₃ hs₃ => ⟨h₂.quiet hs₃, herased.trans (Quiet.erases hs₃), nofun⟩
      | none =>
        refine Safe.pure fun s₃ hs₃ =>
          ⟨h₂.quiet hs₃, herased.trans (Quiet.erases hs₃), fun _ hweak hdeadline => ?_⟩
        exact (hlate rfl).2 (hdeadline choice hchoice) hweak
    · rintro e t' s'' ⟨_, _, heq, -⟩
      cases heq

/-! ## Recovery -/

/-- The tier still agrees with the store, and what the catalog uses is as it was. -/
def Kept (C : Codec β) (good : Prop) (catalog : Catalog) (tier : TelemetryObjectTier)
    (retired : List RetiredObject) (shared shared' : Shared β) : Prop :=
  Consistent C good catalog tier retired shared' ∧ Undisturbed catalog shared shared'

section

omit [DecidableEq β]

theorem Kept.quiet (h : Kept C good cat tier rets sh s₁) (hs : Quiet s₁ s₂) :
    Kept C good cat tier rets sh s₂ :=
  ⟨h.1.quiet hs, h.2.trans hs.undisturbed⟩

theorem Kept.trans (h : Undisturbed cat sh s₁) (h' : Kept C good cat tier rets s₁ s₂) :
    Kept C good cat tier rets sh s₂ :=
  ⟨h'.1, h.trans h'.2⟩

end

theorem verifyCurrentPointer_safe (hnext : Next cat) (h : Consistent C good cat tier rets sh) :
    Leaves (soloRules C good adm Next) verifyCurrentPointer tier (Quiet sh)
      (fun _ _ => True) sh := by
  refine Safe.get_bind
    ((head_safe (h.allowed hnext)).seq (fun _ h => h) fun observed s' hs' _ => ?_)
  exact Safe.ofExcept fun s'' hs'' => ⟨rfl, hs'.trans hs'', fun _ _ => trivial⟩

/-- Deleting `PENDING` once nothing depends on its ownership. -/
theorem delete_pending_safe (hnext : Next cat) (h : Consistent C good cat tier rets sh)
    (hclean : Settled cat sh.store.contents) :
    Leaves (soloRules C good adm Next) (delete .pending) tier (Kept C good cat tier rets sh)
      (fun _ s' => s'.store.objects .pending = none) sh := by
  refine (delete_safe fun s' hdel => (h.erases_pending hclean hdel).allowed hnext).mono
    (fun s' hdel => ⟨h.erases_pending hclean hdel, hdel.undisturbed fun key hkey => ?_⟩) fun _ _ _
      hgone => hgone
  obtain rfl := mem_singleton.mp hkey
  exact h.owned.stands.pending_unused

variable {tx : CatalogTransaction}

section

omit [DecidableEq β]

/-- Once everything `PENDING` owns is erased, nothing depends on its ownership. -/
theorem Erases.pending_gone {keys : List Key} (h : Erases keys sh sh')
    (hpending : sh.store.contents .pending = some (.transaction tx))
    (hgone : ∀ key ∈ tx.ownedObjects, sh'.store.objects key = none) :
    Settled cat sh'.store.contents := by
  intro other hother key hkey
  rcases h.contents .pending with heq | ⟨-, hnone⟩
  · rw [heq, hpending] at hother
    obtain rfl := Object.transaction.inj (Option.some.inj hother)
    exact .inl (by rw [Store.contents, hgone key hkey]; rfl)
  · simp [hnone] at hother

/-- The transaction that produced the root owns only what the root uses. -/
theorem Consistent.pending_used (h : Consistent C good cat tier rets sh)
    (hpending : sh.store.contents .pending = some (.transaction tx))
    (hgen : tx.targetGeneration = cat.root.generation) : Settled cat sh.store.contents := by
  obtain ⟨_, heq, -, hok⟩ := h.owned.pending _ hpending
  obtain rfl := Object.transaction.inj heq
  intro other hother key hkey
  rw [hpending] at hother
  obtain rfl := Object.transaction.inj (Option.some.inj hother)
  rcases hok with hnext | ⟨-, -, hused⟩
  · omega
  · exact .inr (hused key hkey)

end

section Owned

variable (h : Consistent C good cat tier rets sh)
  (hkeys : ∀ key ∈ tx.ownedObjects, ∃ id path, key = .object id path ∧
    id.generation = tx.targetGeneration)
  (hgen : tx.targetGeneration = cat.root.generation + 1)
include h hkeys hgen

omit [DecidableEq β] in
theorem Consistent.owned_unused : ∀ key ∈ tx.ownedObjects, ¬ cat.Uses sh.store.contents key := by
  intro key hkey
  obtain ⟨id, path, rfl, hid⟩ := hkeys key hkey
  exact h.owned.stands.fresh_unused (by omega)

omit [DecidableEq β] in
/-- The keys of a transaction that would produce the next root may be erased. -/
theorem Consistent.erases_owned (hdel : Erases tx.ownedObjects sh sh') :
    Consistent C good cat tier rets sh' := by
  refine h.erases hdel (fun key hkey => ⟨?_, h.owned_unused hkeys hgen key hkey⟩)
    fun hgood lease hlease key hkey => ?_
  · obtain ⟨id, path, rfl, hid⟩ := hkeys key hkey
    simp
  · obtain ⟨id, path, rfl, hid⟩ := hkeys key hkey
    have := h.loaded.generation_eq
    exact h.fresh_unleased hgood hlease (by omega)

omit [DecidableEq β] in
/-- Taking `PENDING` for a transaction that would produce the next root. -/
theorem Consistent.take_pending (hnone : sh.store.contents .pending = none) (hist : History β) :
    Consistent C good cat tier rets ⟨sh.store.insert .pending (.transaction tx),
      sh.leases, hist⟩ := by
  have hcont : (sh.store.insert .pending (.transaction tx)).contents =
      update sh.store.contents .pending (some (.transaction tx)) := by
    funext key
    rw [Store.contents_insert, update_apply]
  refine h.of_owned ?_ ?_ (fun entry hmem hentry => ?_) (fun _ hmem => hmem) ?_
  · rw [hcont]
    exact h.owned.take_pending hnone hkeys hgen
  · rw [Store.version_insert, if_neg (by simp)]
  · obtain ⟨id, path, hkey, -⟩ := h.owned.stands.ok.retired_shape entry hmem
    rw [Store.contents_insert_of_ne (by simp [hkey]), hentry]
  · intro hgood lease hlease key hkey
    obtain ⟨id, path, rfl, -⟩ := (h.leases hgood lease hlease).bound key hkey
    exact Store.contents_insert_of_ne (by simp)

/-- Discarding a transaction that would produce the next root. -/
theorem discardAbandoned_safe (hnext : Next cat) :
    Leaves (soloRules C good adm Next) (discardAbandoned tx) tier (Erases tx.ownedObjects sh)
      (fun _ s' => ∀ key ∈ tx.ownedObjects, s'.store.objects key = none) sh := by
  refine (unixTimeMillis_safe (h.allowed hnext)).bind ?_
  rintro now s₁ ⟨hs₁, -⟩
  refine Leaves.ofExcept_bind (fun s' hs' => Quiet.erases (hs₁.trans hs')) fun _ _ => ?_
  have habandon :
      Returns (soloRules C good adm Next) (abandon tx) tier (fun _ s' => Quiet sh s') s₁ :=
    quiet_perform rfl ((h.quiet hs₁).allowed hnext)
      fun s₂ _ r _ hs₂ _ _ s₃ hs₃ => ⟨rfl, r, rfl, hs₁.trans (hs₂.trans hs₃)⟩
  refine habandon.bind fun _ s₂ hs₂ => ?_
  have hs₂ : Erases tx.ownedObjects sh s₂ := hs₂.erases
  exact (deleteAll_safe tx.ownedObjects fun s' hs' =>
    (h.erases_owned hkeys hgen (hs₂.trans hs')).allowed hnext).mono (fun _ => hs₂.trans) fun _ _ _
      hgone => hgone

end Owned

/-- A recovery that succeeds leaves no `PENDING`; the tier stays in agreement in any case. -/
theorem recoverPendingTransaction_safe (hnext : Next cat) (h : Consistent C good cat tier rets sh) :
    Leaves (soloRules C good adm Next) (recoverPendingTransaction C) tier
      (Kept C good cat tier rets sh)
      (fun _ s' => s'.store.objects .pending = none) sh := by
  have hkept : ∀ {s₁ : Shared β}, Quiet sh s₁ → ∀ s', Quiet s₁ s' →
      Kept C good cat tier rets sh s' :=
    fun hs₁ s' hs' => ⟨h.quiet (hs₁.trans hs'), (hs₁.trans hs').undisturbed⟩
  refine (head_safe (h.allowed hnext)).seq (hkept (Quiet.refl sh)) fun observed s₁ hs₁
    hobserved => ?_
  have h₁ := h.quiet hs₁
  cases observed with
  | none =>
    refine Leaves.pure fun s' hs' => ⟨hkept hs₁ s' hs', ?_⟩
    rw [hs'.1, hs₁.1]
    simpa using hobserved.symm
  | some md =>
    refine Safe.get_bind (Leaves.ofExcept_bind (hkept hs₁) fun _ _ => ?_)
    refine (getObject_safe (h₁.allowed hnext)).seq (hkept hs₁) fun obj s₂ hs₂ hget => ?_
    have h₂ := h₁.quiet hs₂
    have hs₂' : Quiet sh s₂ := hs₁.trans hs₂
    refine Leaves.ofExcept_bind (hkept hs₂') fun _ _ => ?_
    refine Leaves.ofExcept_bind (hkept hs₂') fun tx hdecode => ?_
    refine Leaves.ofExcept_bind (hkept hs₂') fun _ _ => ?_
    have hpending : s₂.store.contents .pending = some (.transaction tx) := by
      rw [hs₂.1, hget, decodeJson_transaction hdecode]
    split
    · next hmatch =>
      have hgen : tx.targetGeneration = cat.root.generation := by
        rw [← h₂.loaded.generation_eq, hmatch.2]
      exact (delete_pending_safe hnext h₂ (h₂.pending_used hpending hgen)).mono
        (fun _ => .trans hs₂'.undisturbed) fun _ _ _ hgone => hgone
    · next hmatch =>
      obtain ⟨_, heq, hkeys, hok⟩ := h₂.owned.pending _ hpending
      obtain rfl := Object.transaction.inj heq
      have hgen : tx.targetGeneration = cat.root.generation + 1 := by
        refine hok.resolve_right fun ⟨hgen, hroot, _⟩ => hmatch ⟨?_, ?_⟩
        · rw [h₂.loaded.rootKey_eq, hroot]
        · rw [h₂.loaded.generation_eq, hgen]
      have herased : ∀ s₃, Erases tx.ownedObjects s₂ s₃ → Kept C good cat tier rets sh s₃ :=
          fun _ hdel =>
        .trans hs₂'.undisturbed ⟨h₂.erases_owned hkeys hgen hdel,
          hdel.undisturbed (h₂.owned_unused hkeys hgen)⟩
      refine (discardAbandoned_safe h₂ hkeys hgen hnext).seq herased fun _ s₃ hdel hgone => ?_
      exact (delete_pending_safe hnext (herased s₃ hdel).1 (hdel.pending_gone hpending hgone)).mono
        (fun _ => .trans (herased s₃ hdel).2) fun _ _ _ hgone => hgone

/-! ## Committing a transaction -/

/-- A transaction that has begun owns `PENDING`. -/
theorem beginTransaction_safe (hnext : Next cat) (h : Consistent C good cat tier rets sh)
    (hid : tx.transactionId.generation = tx.targetGeneration)
    (hgen : tx.targetGeneration = cat.root.generation + 1) :
    Leaves (soloRules C good adm Next) (beginTransaction C tx) tier (Kept C good cat tier rets sh)
      (fun _ s' => s'.store.contents .pending = some (.transaction tx)) sh := by
  refine (recoverPendingTransaction_safe hnext h).seq (fun _ h => h) fun _ s₁ h₁ hnone => ?_
  refine (verifyCurrentPointer_safe hnext h₁.1).seq (fun _ => h₁.quiet) fun _ s₂ hs₂ _ => ?_
  have h₂ := h₁.quiet hs₂
  refine Safe.get_bind (Leaves.ofExcept_bind (fun _ => h₂.quiet) fun _ hvalid => ?_)
  refine Leaves.ofExcept_bind (fun _ => h₂.quiet) fun _ _ => ?_
  have hkeys : ∀ key ∈ tx.ownedObjects, ∃ id path, key = .object id path ∧
      id.generation = tx.targetGeneration := by
    intro key hkey
    obtain ⟨path, rfl⟩ := CatalogTransaction.validate_owned hvalid hkey
    exact ⟨_, path, rfl, hid⟩
  refine Leaves.seq (G := Kept C good cat tier rets sh)
    (K := fun _ s' => s'.store.contents .pending = some (.transaction tx)) (Safe.attempt ?_)
      (fun _ h => h) ?_
  · rintro s₃ hs₃ r s₄ ⟨_, choice, _, hperf⟩
    have h₃ := h₂.quiet hs₃
    have hnone' : s₃.store.contents .pending = none := by
      rw [hs₃.1, hs₂.1, Store.contents, hnone]
      rfl
    rcases perform_compareAndSwap hperf with ⟨error, rfl, rfl⟩ | ⟨rfl, -, rfl⟩
    · exact ⟨h₃.1.allowed hnext, fun s₅ hs₅ => ⟨rfl, h₃.quiet hs₅, fun _ h => by cases h⟩⟩
    · have h₄ := h₃.1.take_pending hkeys hgen hnone'
        (s₃.history.commit .pending (.transaction tx) s₃.store.nextVersion)
      refine ⟨h₄.allowed hnext, fun s₅ hs₅ =>
        ⟨rfl, Kept.quiet ⟨h₄, h₃.2.trans ?_⟩ hs₅, fun _ _ => ?_⟩⟩
      · refine ⟨fun key hkey => Store.contents_insert_of_ne fun heq => ?_, fun _ hmem => hmem⟩
        exact h₃.1.owned.stands.pending_unused (heq ▸ hkey)
      · exact (congrArg (·.contents .pending) hs₅.1).trans Store.contents_insert_self
  · intro md s₃ h₃ hpending
    exact Leaves.pure fun s₄ hs₄ =>
      ⟨h₃.quiet hs₄, (congrArg (·.contents .pending) hs₄.1).trans hpending⟩

section Commit

section

variable (hnext : Next cat) (h : Consistent C good cat tier rets sh)
  (hpending : sh.store.contents .pending = some (.transaction tx))
include hnext h hpending

/-- Aborting erases what the transaction stored, and then its record. -/
theorem abortTransaction_safe (hgen : tx.targetGeneration = cat.root.generation + 1) :
    Leaves (soloRules C good adm Next) (abortTransaction tx primary) tier
      (Consistent C good cat tier rets)
      (fun _ _ => True) sh := by
  obtain ⟨_, heq, hkeys, -⟩ := h.owned.pending _ hpending
  obtain rfl := Object.transaction.inj heq
  have herase : ∀ s', Erases tx.ownedObjects sh s' → Consistent C good cat tier rets s' :=
    fun _ => h.erases_owned hkeys hgen
  refine (cleanupOwned_safe tx.ownedObjects none fun s' hs' =>
    (herase s' hs').allowed hnext).seq herase
    fun cleanupError s₁ hs₁ hgone => ?_
  have h₁ := herase s₁ hs₁
  cases cleanupError with
  | some error => exact Leaves.pure fun s₂ hs₂ => ⟨h₁.quiet hs₂, trivial⟩
  | none =>
    refine (delete_pending_safe hnext h₁ (hs₁.pending_gone hpending (hgone rfl).2)).observe_bind
      fun r s₂ h₂ _ => ?_
    cases r <;> exact Leaves.pure fun s₃ hs₃ => ⟨h₂.1.quiet hs₃, trivial⟩

/-- Completing a transaction deletes its record, or leaves it for the next recovery. -/
theorem completeTransaction_safe (hgen : tx.targetGeneration = cat.root.generation) :
    Leaves (soloRules C good adm Next) completeTransaction tier
      (fun s' => Consistent C good cat tier rets s' ∧ s'.leases ⊆ sh.leases) (fun _ _ => True) sh :=
  (delete_pending_safe hnext h (h.pending_used hpending hgen)).observe_bind fun _ _ h₁ _ =>
    Leaves.pure fun _ hs₂ => ⟨⟨h₁.1.quiet hs₂, fun _ hmem => h₁.2.2 (hs₂.2 hmem)⟩, trivial⟩

end

variable {view : View β} {pub : Publication β}

omit [DecidableEq β] in
theorem Catalog.Stands.selectedRoot_eq (h : cat.Stands C view) (hkey : cat.rootKey = some key) :
    ∃ ptr, ptr.rootKey = key ∧ selectedRoot view = some (ptr, cat.root) := by
  have hsel := h.selected
  rw [Catalog.Selected, hkey] at hsel
  obtain ⟨ptr, hptr, rfl, ⟨hroot, -⟩, -⟩ := hsel
  exact ⟨ptr, rfl, by simp [selectedRoot, hptr, hroot]⟩

section Derived

variable (h : Consistent C good cat tier tier.root.retiredObjects sh)
  (hder : Derives C view tier pub nextGroups)
  (hkept : ∀ key ∈ reachedKeys view tier.root.pages, sh.store.contents key = view key)
include h hder hkept

omit [DecidableEq β] in
/-- A lease that reads a newly retired key holds the root that is replaced. -/
theorem Consistent.newly_retired_handle (hput : ∀ up ∈ pub.uploads, up.Stored C sh.store.contents)
    (hgood : good)
    (hrespects : sh.RespectsLeases
      (.compareAndSwap .current tier.currentVersion (.pointer pub.pointer)))
    (hlease : lease ∈ sh.leases) (hkey : key ∈ leaseKeys sh.store.contents lease)
    (hnew : key ∈ retiredKeys pub.newlyRetired) : lease.handle = tier.rootHandle := by
  have hok := h.leases hgood lease hlease
  have hused := hder.newly_retired_used hnew
  rw [← reachedKeys_congr hkept, h.loaded.pages_eq, h.loaded.rootKey_eq] at hused
  by_cases hcur : lease.rootKey = tier.currentRootKey
  · exact hok.current hcur
  cases hroot : cat.rootKey with
  | none =>
    have hsel := h.owned.stands.selected
    rw [Catalog.Selected, hroot] at hsel
    rw [hroot, hsel.2.1] at hused
    simp [reachedKeys, catalogGroups] at hused
  | some rootKey =>
    obtain ⟨ptr, rfl, hsel⟩ := h.owned.stands.selectedRoot_eq hroot
    obtain ⟨up, hmem, hrootKey, hbody⟩ := hder.root_upload
    have hnextRoot := hput up hmem
    rw [Upload.Stored, hbody, hrootKey] at hnextRoot
    have hmoves : sh.moves (.compareAndSwap .current tier.currentVersion
        (.pointer pub.pointer)) = some (ptr, cat.root, pub.nextRoot) := by
      simp [Shared.moves, hnextRoot, hsel, h.version]
    have hold : key ∉ retiredKeys cat.root.retiredObjects := by
      intro hret
      obtain ⟨entry, hentry, rfl⟩ := mem_map.mp hret
      exact h.owned.stands.retired_unused hentry (.inr hused)
    have hnextRetired := (hder.retired key).mpr (.inr hnew)
    refine absurd hkey (hrespects _ hmoves lease hlease ?_ key hnextRetired hold)
    rwa [← hroot, ← h.loaded.rootKey_eq]

omit [DecidableEq β] in
/-- `CURRENT` selects the next root: the tier that is handed over agrees with the store, and no
lease holds the new root yet. -/
theorem Consistent.commit
    (hpending : sh.store.contents .pending = some (.transaction pub.transaction))
    (hput : ∀ up ∈ pub.uploads, up.Stored C sh.store.contents)
    (hrespects : good → sh.RespectsLeases
      (.compareAndSwap .current tier.currentVersion (.pointer pub.pointer))) (hist : History β) :
    Consistent C good (Catalog.next pub nextGroups)
        (pub.select sh.store.nextVersion tier) pub.nextRoot.retiredObjects
        ⟨sh.store.insert .current (.pointer pub.pointer), sh.leases, hist⟩ ∧
      (good → ∀ lease ∈ sh.leases, lease.rootKey ≠ some pub.pointer.rootKey) := by
  have hcont : (sh.store.insert .current (.pointer pub.pointer)).contents =
      update sh.store.contents .current (some (.pointer pub.pointer)) := by
    funext key
    rw [Store.contents_insert, update_apply]
  have hfree : good → ∀ lease ∈ sh.leases,
      lease.rootKey ≠ some pub.pointer.rootKey := by
    intro hgood lease hlease heq
    obtain ⟨digest, hptr⟩ := hder.pointer_key
    have hfresh : tier.root.generation < pub.transaction.transactionId.generation := by
      rw [hder.transaction_generation]
      omega
    exact h.fresh_unleased hgood hlease hfresh
      (mem_leaseKeys.mpr (.inl (heq.trans (congrArg some hptr))))
  refine ⟨⟨?_, ⟨rfl, rfl, fun _ hmem => hmem⟩, ?_, fun _ hmem => .inl hmem, ?_⟩, hfree⟩
  · rw [hcont]
    exact h.owned.commit h.loaded h.gone hder hkept hpending hput
  · rw [Store.version_insert, if_pos rfl]
    rfl
  · intro hgood lease hlease
    have hok := h.leases hgood lease hlease
    have hsame : ∀ key ∈ leaseKeys sh.store.contents lease,
        (sh.store.insert .current (.pointer pub.pointer)).contents key = sh.store.contents key := by
      intro key hkey
      obtain ⟨id, path, rfl, -⟩ := hok.bound key hkey
      exact Store.contents_insert_of_ne (by simp)
    have hkeys := leaseKeys_congr hsame
    refine ⟨hok.owner, hok.intact.congr hsame, fun key hkey => ?_, fun entry hentry hkey => ?_,
      fun heq => absurd heq (hfree hgood lease hlease)⟩
    · rw [hkeys] at hkey
      obtain ⟨id, path, rfl, hle⟩ := hok.bound key hkey
      exact ⟨id, path, rfl, hle.trans (by rw [Publication.select, hder.generation]; omega)⟩
    · rw [hkeys] at hkey
      by_cases hnew : entry.objectKey ∈ retiredKeys pub.newlyRetired
      · have hhandle :=
          h.newly_retired_handle hder hkept hput hgood (hrespects hgood) hlease hkey hnew
        rw [hhandle]
        exact if_pos (by simpa [retiredKeys] using hnew)
      · have hold := ((hder.retired _).mp (mem_map_of_mem hentry)).resolve_right hnew
        obtain ⟨entry', hentry', heq⟩ := mem_map.mp hold
        have hdeferred := hok.deferred entry' hentry' (heq ▸ hkey)
        rw [heq] at hdeferred
        refine Eq.trans (if_neg ?_) hdeferred
        simpa [retiredKeys] using hnew

variable (hnext : Next cat) (hnext' : Next (Catalog.next pub nextGroups))
include hnext hnext'

/-- Publishing either fails in agreement with the old catalog, or hands over to the next one. -/
theorem publishObjects_safe
    (hpending : sh.store.contents .pending = some (.transaction pub.transaction)) :
    Safe (soloRules C good adm Next) (publishObjects pub) tier
      (fun r t' s' => t' = tier ∧ s'.store.contents .pending = some (.transaction pub.transaction) ∧
        (∀ error, r = .error error → Consistent C good cat tier tier.root.retiredObjects s') ∧
        ∀ md, r = .ok md → Consistent C good (Catalog.next pub nextGroups)
            (pub.select md.versionToken tier) pub.nextRoot.retiredObjects s' ∧
          (good → ∀ lease ∈ s'.leases, lease.rootKey ≠ some pub.pointer.rootKey)) sh := by
  have hgen : pub.transaction.targetGeneration = cat.root.generation + 1 := by
    rw [hder.target_generation, h.loaded.generation_eq]
  have hstore : ∀ {s'}, Stores (pub.uploads.map (·.key)) sh s' →
      Consistent C good cat tier tier.root.retiredObjects s' :=
    fun hstores => h.stores hpending hgen (hder.owned ▸ hstores)
  refine (putUploads_safe pub.uploads fun s' hs' => (hstore hs').allowed hnext).bind
    (fun _ s₁ hs₁ => ⟨rfl, hs₁.contents_of_some hpending, fun _ _ => hstore hs₁, nofun⟩) fun _ s₁
      hs₁ hput => ?_
  refine Safe.get_bind (Safe.attempt fun s₂ hs₂ r s₃ ⟨hrespects, choice, _, hperf⟩ => ?_)
  have hs₂' : Stores (pub.uploads.map (·.key)) sh s₂ := hs₁.trans (Quiet.stores hs₂)
  have h₂ := hstore hs₂'
  have hpending₂ := hs₂'.contents_of_some hpending
  rcases perform_compareAndSwap hperf with ⟨error, rfl, rfl⟩ | ⟨rfl, -, rfl⟩
  · refine ⟨h₂.allowed hnext, fun s₄ hs₄ => ⟨rfl, ?_, fun _ _ => h₂.quiet hs₄, nofun⟩⟩
    rw [hs₄.1, hpending₂]
  · have hkept₂ : ∀ key ∈ reachedKeys view tier.root.pages, s₂.store.contents key = view key := by
      intro key hkey
      have hpresent :=
        h.owned.stands.ok.intact.present (h.loaded.pages_eq ▸ reachedKeys_congr hkept ▸ hkey)
      obtain ⟨obj, hobj⟩ := Option.ne_none_iff_exists'.mp hpresent
      rw [hs₂'.contents_of_some hobj, ← hobj, hkept key hkey]
    obtain ⟨h₃, hfree⟩ := h₂.commit hder hkept₂ hpending₂ (hs₂.1 ▸ hput) hrespects
      (s₂.history.commit .current (.pointer pub.pointer) s₂.store.nextVersion)
    refine ⟨h₃.allowed hnext', fun s₄ hs₄ => ⟨rfl, ?_, (nofun), fun md heq => ?_⟩⟩
    · rw [hs₄.1]
      exact (Store.contents_insert_of_ne (by simp)).trans hpending₂
    · cases heq
      exact ⟨h₃.quiet hs₄, fun hgood lease hlease => hfree hgood lease (hs₄.2 hlease)⟩

/-- Committing a derived publication leaves the old catalog or the next one, at every effect and at
the end. -/
theorem commitTransaction_safe : Safe (soloRules C good adm Next) (commitTransaction C pub) tier
      (fun _ t' s' => ∃ cat', Next cat' ∧ Consistent C good cat' t' t'.root.retiredObjects s')
        sh := by
  have hgen : pub.transaction.targetGeneration = cat.root.generation + 1 := by
    rw [hder.target_generation, h.loaded.generation_eq]
  have hid := hder.transaction_generation.trans hder.target_generation.symm
  refine (beginTransaction_safe hnext h hid hgen).bind (fun _ _ h₁ => ⟨cat, hnext, h₁.1⟩)
    fun _ s₁ h₁ hpending => ?_
  have hkept₁ : ∀ key ∈ reachedKeys view tier.root.pages, s₁.store.contents key = view key := by
    intro key hkey
    rw [h₁.2.1 key (.inr (.inr ?_)), hkept key hkey]
    rwa [← h.loaded.pages_eq, reachedKeys_congr hkept]
  refine Safe.observe_bind (publishObjects_safe h₁.1 hder hkept₁ hnext hnext' hpending) ?_
  rintro r t'' s₂ ⟨rfl, hpending₂, herror, hok⟩
  cases r with
  | error error =>
    refine (abortTransaction_safe hnext (herror error rfl) hpending₂ hgen).bind
      (fun _ _ h₃ => ⟨cat, hnext, h₃⟩) fun _ s₃ h₃ _ => ?_
    exact Safe.throw fun s₄ hs₄ => ⟨cat, hnext, h₃.quiet hs₄⟩
  | ok md =>
    obtain ⟨h₂, hfree⟩ := hok md rfl
    have htarget :
        pub.transaction.targetGeneration = (Catalog.next pub nextGroups).root.generation := by
      rw [hder.target_generation, ← hder.generation]
      rfl
    refine Safe.modify_bind ((completeTransaction_safe hnext' h₂ hpending₂ htarget).bind
      (fun _ _ h₃ => ⟨_, hnext', h₃.1⟩) fun _ s₃ h₃ _ => ?_)
    refine (reclaimRetiredObjects_safe hnext' h₃.1 fun hgood => .inr fun lease hlease => ?_).mono ?_
    · exact hfree hgood lease (h₃.2 hlease)
    · rintro r t₄ s₄ ⟨h₄, -⟩
      exact ⟨_, hnext', h₄⟩

end Derived

end Commit

end ShardTelemetry.Tier
