import ShardTelemetry.Tier.Solo

/-!
# What the loops of a single writer do to the store

Deleting a list of keys only erases some of them (`Erases`), and uploading a list of objects only
stores some that were absent (`Stores`), at every effect.  Which of these changes keep a tier in
agreement with the store follows from the moves of exact ownership.
-/

namespace ShardTelemetry.Tier

open List Function Cmd

variable {β : Type}

/-! ## Changes of the store -/

/-- Some of the keys were erased and some leases dropped; nothing else changed. -/
def Erases (keys : List Key) (shared shared' : Shared β) : Prop :=
  (∀ key, shared'.store.objects key = shared.store.objects key ∨
    (key ∈ keys ∧ shared'.store.objects key = none)) ∧ shared'.leases ⊆ shared.leases

/-- Some of the keys that were absent were stored and some leases dropped; nothing else changed. -/
def Stores (keys : List Key) (shared shared' : Shared β) : Prop :=
  (∀ key, shared'.store.objects key = shared.store.objects key ∨
    (key ∈ keys ∧ shared.store.objects key = none)) ∧ shared'.leases ⊆ shared.leases

section Changes

variable {C : Codec β} {keys : List Key} {s : Shared β}

theorem Store.contents_eq_of_objects {store store' : Store β}
    (h : store'.objects key = store.objects key) : store'.contents key = store.contents key := by
  rw [Store.contents, h, Store.contents]

theorem Quiet.erases (h : Quiet s s₁) : Erases keys s s₁ := ⟨fun _ => .inl (by rw [h.1]), h.2⟩

theorem Quiet.stores (h : Quiet s s₁) : Stores keys s s₁ := ⟨fun _ => .inl (by rw [h.1]), h.2⟩

theorem Erases.trans (h : Erases keys s s₁) (h' : Erases keys s₁ s₂) : Erases keys s s₂ := by
  refine ⟨fun key => ?_, fun _ hmem => h.2 (h'.2 hmem)⟩
  rcases h'.1 key with heq | hgone
  · rw [heq]
    exact h.1 key
  · exact .inr hgone

theorem Erases.mono (h : Erases keys s s₁) (hsub : keys ⊆ keys') : Erases keys' s s₁ :=
  ⟨fun key => (h.1 key).imp_right fun ⟨hmem, hnone⟩ => ⟨hsub hmem, hnone⟩, h.2⟩

theorem Erases.cons (h : Erases [key] s s₁) : Erases (key :: keys) s s₁ := h.mono (by simp)

theorem Erases.erase (hkey : key ∈ keys) : Erases keys s { s with store := s.store.erase key } := by
  refine ⟨fun other => ?_, fun _ h => h⟩
  by_cases heq : other = key
  · subst heq
    exact .inr ⟨hkey, by simp [Store.erase]⟩
  · exact .inl (by simp [Store.erase, update_of_ne heq])

theorem Erases.contents (h : Erases keys s s₁) (key) :
    s₁.store.contents key = s.store.contents key ∨ (key ∈ keys ∧ s₁.store.contents key = none) :=
  (h.1 key).imp Store.contents_eq_of_objects
    fun ⟨hmem, hnone⟩ => ⟨hmem, by rw [Store.contents, hnone]; rfl⟩

theorem Erases.none_of_none (h : Erases keys s s₁) (hnone : s.store.objects key = none) :
    s₁.store.objects key = none := by
  rcases h.1 key with heq | ⟨-, hgone⟩
  · rw [heq, hnone]
  · exact hgone

theorem Stores.trans (h : Stores keys s s₁) (h' : Stores keys s₁ s₂) : Stores keys s s₂ := by
  refine ⟨fun key => ?_, fun _ hmem => h.2 (h'.2 hmem)⟩
  rcases h.1 key with heq | habsent
  · rw [← heq]
    exact h'.1 key
  · exact .inr habsent

theorem Stores.mono (h : Stores keys s s₁) (hsub : keys ⊆ keys') : Stores keys' s s₁ :=
  ⟨fun key => (h.1 key).imp_right fun ⟨hmem, hnone⟩ => ⟨hsub hmem, hnone⟩, h.2⟩

theorem Stores.write (hkey : key ∈ keys) (hnone : s.store.contents key = none) (obj) :
    Stores keys s (s.write key obj) := by
  refine ⟨fun other => ?_, fun _ h => h⟩
  by_cases heq : other = key
  · subst heq
    exact .inr ⟨hkey, by simpa [Store.contents] using hnone⟩
  · exact .inl (by simp [Shared.write, Store.insert, update_of_ne heq])

/-- What was stored stays stored. -/
theorem Stores.contents_of_some (h : Stores keys s s₁) {obj : Object β}
    (hsome : s.store.contents key = some obj) : s₁.store.contents key = some obj := by
  rcases h.1 key with heq | ⟨-, hnone⟩
  · rw [Store.contents_eq_of_objects heq, hsome]
  · simp [Store.contents, hnone] at hsome

theorem Stores.stored {up : Upload β} (h : Stores keys s s₁)
    (hstored : up.Stored C s.store.contents) : up.Stored C s₁.store.contents := by
  unfold Upload.Stored at hstored ⊢
  cases hbody : up.body with
  | bytes obj =>
    rw [hbody] at hstored
    exact h.contents_of_some hstored
  | file path =>
    rw [hbody] at hstored
    obtain ⟨data, hrec⟩ := hstored
    exact ⟨data, h.contents_of_some hrec.1, hrec.2⟩

/-- Everything the catalog uses is still there, unchanged, and no lease was taken. -/
def Undisturbed (catalog : Catalog) (shared shared' : Shared β) : Prop :=
  (∀ key, catalog.Uses shared.store.contents key →
    shared'.store.contents key = shared.store.contents key) ∧ shared'.leases ⊆ shared.leases

theorem Quiet.undisturbed (h : Quiet s s₁) : Undisturbed cat s s₁ :=
  ⟨fun _ _ => by rw [h.1], h.2⟩

theorem Undisturbed.trans (h : Undisturbed cat s s₁) (h' : Undisturbed cat s₁ s₂) :
    Undisturbed cat s s₂ :=
  ⟨fun key hkey => (h'.1 key ((Catalog.Uses.congr h.1).mpr hkey)).trans (h.1 key hkey),
    fun _ hmem => h.2 (h'.2 hmem)⟩

theorem Erases.undisturbed (h : Erases keys s s₁)
    (hunused : ∀ key ∈ keys, ¬ cat.Uses s.store.contents key) : Undisturbed cat s s₁ :=
  ⟨fun key hkey => (h.contents key).resolve_right fun ⟨hmem, _⟩ => hunused key hmem hkey, h.2⟩

/-- Nothing depends on the ownership of `PENDING`: what it owns is gone or used by the catalog. -/
def Settled (catalog : Catalog) (view : View β) : Prop :=
  ∀ transaction, view .pending = some (.transaction transaction) →
    ∀ key ∈ transaction.ownedObjects, view key = none ∨ catalog.Uses view key

section

variable (h : Consistent C good cat tier rets s)
include h

/-- Erasing keys that neither the catalog nor a lease uses keeps the tier in agreement. -/
theorem Consistent.erases (hdel : Erases keys s s₁)
    (hunused : ∀ key ∈ keys, key ≠ .pending ∧ ¬ cat.Uses s.store.contents key)
    (hfree : good → ∀ lease ∈ s.leases, ∀ key ∈ keys, key ∉ leaseKeys s.store.contents lease) :
    Consistent C good cat tier rets s₁ := by
  have hcur : s₁.store.objects .current = s.store.objects .current :=
    (hdel.1 .current).resolve_right fun ⟨hmem, _⟩ => (hunused _ hmem).2 (.inl rfl)
  refine h.of_owned (h.owned.shrink (fun key => ?_) ?_) ?_ (fun entry _ hnone => ?_) hdel.2 ?_
  · exact (hdel.contents key).imp_right fun ⟨hmem, hnone⟩ => ⟨hnone, (hunused key hmem).2⟩
  · exact (hdel.contents .pending).resolve_right fun ⟨hmem, _⟩ => (hunused _ hmem).1 rfl
  · rw [Store.version, hcur, Store.version]
  · rcases hdel.contents entry.objectKey with heq | ⟨-, hgone⟩
    · rw [heq, hnone]
    · exact hgone
  · intro hgood lease hlease key hkey
    exact (hdel.contents key).resolve_right fun ⟨hmem, _⟩ =>
      hfree hgood lease hlease key hmem hkey

/-- Erasing `PENDING` keeps the tier in agreement once nothing depends on its ownership. -/
theorem Consistent.erases_pending (hclean : Settled cat s.store.contents)
    (hdel : Erases [.pending] s s₁) : Consistent C good cat tier rets s₁ := by
  have hne : ∀ key, key ≠ .pending → s₁.store.objects key = s.store.objects key :=
    fun key hkey => (hdel.1 key).resolve_right fun ⟨hmem, _⟩ => hkey (by simpa using hmem)
  have hcont : s₁.store.contents = s.store.contents ∨
      s₁.store.contents = update s.store.contents .pending none := by
    rcases hdel.contents .pending with heq | ⟨-, hgone⟩
    · left
      funext key
      by_cases hkey : key = .pending
      · rw [hkey, heq]
      · exact Store.contents_eq_of_objects (hne key hkey)
    · right
      funext key
      by_cases hkey : key = .pending
      · rw [hkey, hgone, update_self]
      · rw [update_of_ne hkey, Store.contents_eq_of_objects (hne key hkey)]
  refine h.of_owned ?_ ?_ (fun entry hmem hnone => ?_) hdel.2 ?_
  · rcases hcont with heq | heq <;> rw [heq]
    · exact h.owned
    · exact h.owned.clear_pending hclean
  · rw [Store.version, hne _ (by simp), Store.version]
  · obtain ⟨tx, path, hkey, -⟩ := h.owned.stands.ok.retired_shape entry hmem
    rw [Store.contents_eq_of_objects (hne _ (by simp [hkey])), hnone]
  · intro hgood lease hlease key hkey
    obtain ⟨tx, path, rfl, -⟩ := (h.leases hgood lease hlease).bound key hkey
    exact Store.contents_eq_of_objects (hne _ (by simp))

/-- The transaction in `PENDING` may store what it owns. -/
theorem Consistent.stores {tx : CatalogTransaction}
    (hpend : s.store.contents .pending = some (.transaction tx))
    (hgen : tx.targetGeneration = cat.root.generation + 1) (hstores : Stores tx.ownedObjects s s₁) :
    Consistent C good cat tier rets s₁ := by
  obtain ⟨_, heq, hkeys, -⟩ := h.owned.pending _ hpend
  obtain rfl := Object.transaction.inj heq
  have hkept : ∀ key, (∀ id path, key = .object id path →
      id.generation ≤ cat.root.generation) → s₁.store.objects key = s.store.objects key := by
    intro key hold
    refine (hstores.1 key).resolve_right fun ⟨hmem, _⟩ => ?_
    obtain ⟨id, path, rfl, hid⟩ := hkeys key hmem
    have := hold id path rfl
    omega
  refine h.of_owned (h.owned.store hpend hgen fun key => ?_) ?_
    (fun entry hmem hnone => ?_) hstores.2 ?_
  · exact (hstores.1 key).imp Store.contents_eq_of_objects And.left
  · rw [Store.version, hkept _ (by simp), Store.version]
  · obtain ⟨tx', path', hkey, hle⟩ := h.owned.stands.ok.retired_shape entry hmem
    rw [Store.contents_eq_of_objects (hkept _ ?_), hnone]
    intro id path heq
    rw [hkey] at heq
    obtain ⟨rfl, -⟩ := Key.object.inj heq
    exact hle
  · intro hgood lease hlease key hkey
    refine Store.contents_eq_of_objects (hkept key fun id path hshape => ?_)
    obtain ⟨id', path', rfl, hle⟩ := (h.leases hgood lease hlease).bound key hkey
    obtain ⟨rfl, -⟩ := Key.object.inj hshape
    exact hle.trans h.loaded.generation_eq.le

end

end Changes

/-! ## Loops over the store -/

section Methods

variable [DecidableEq β]

/-- The states a single writer may leave behind. -/
abbrev Allowed (C : Codec β) (good : Prop) (Next : Catalog → Prop) (shared : Shared β) : Prop :=
  ∃ catalog, Held C good catalog shared ∧ Next catalog

omit [DecidableEq β] in
theorem Consistent.allowed (h : Consistent C good cat tier rets sh)
    (hnext : Next cat) : Allowed C good Next sh :=
  ⟨cat, h.held, hnext⟩

variable {effect : Effect β}

/-- An effect that only reads is safe where the writer may be left. -/
theorem quiet_attempt (hquiet : effect.quiet = true)
    (hok : Allowed C good Next sh)
    (h : ∀ s₁ choice r s₂, Quiet sh s₁ → adm choice →
      s₁.perform C 0 choice effect = (r, s₂) → ∀ s₃, Quiet s₁ s₃ → Q (f r) tier s₃) :
    Safe (soloRules C good adm Next) (attempt effect f) tier Q sh := by
  refine Safe.attempt fun s₁ hs₁ r s₂ ⟨_, choice, hchoice, hperf⟩ => ?_
  obtain ⟨hstore, hls⟩ := perform_quiet hquiet hperf
  have hs₂ : Quiet s₁ s₂ := ⟨hstore, hls ▸ fun _ hmem => hmem⟩
  obtain ⟨cat, hheld, hnext⟩ := hok
  refine ⟨⟨cat, hheld.quiet (Quiet.trans hs₁ hs₂), hnext⟩, fun s₃ hs₃ => ?_⟩
  exact h s₁ choice r s₂ hs₁ hchoice hperf s₃ (hs₂.trans hs₃)

theorem quiet_perform (hquiet : effect.quiet = true)
    {Q : TelemetryResult (Response effect) → TelemetryObjectTier → Shared β → Prop}
    (hok : Allowed C good Next sh)
    (h : ∀ s₁ choice r s₂, Quiet sh s₁ → adm choice →
      s₁.perform C 0 choice effect = (r, s₂) → ∀ s₃, Quiet s₁ s₃ → Q (.ok r) tier s₃) :
    Safe (soloRules C good adm Next) (perform effect) tier Q sh :=
  quiet_attempt (f := Except.ok) hquiet hok h

/-- One deletion: it fails without effect or the key is gone. -/
theorem delete_safe (hok : ∀ s', Erases [key] sh s' → Allowed C good Next s') :
    Leaves (soloRules C good adm Next) (delete key : TierM β Unit) tier (Erases [key] sh)
      (fun _ s' => s'.store.objects key = none) sh := by
  refine Safe.attempt fun s₁ hs₁ r s₂ ⟨_, choice, _, hperf⟩ => ?_
  have hs₁ : Erases [key] sh s₁ := Quiet.erases hs₁
  have hs₂ : Erases [key] sh s₂ ∧ ∀ a, r = .ok a → s₂.store.objects key = none := by
    rcases perform_delete hperf with ⟨error, rfl, rfl⟩ | ⟨rfl, rfl⟩
    · exact ⟨hs₁, nofun⟩
    · exact ⟨hs₁.trans (.erase mem_cons_self), fun _ _ => by simp [Store.erase]⟩
  refine ⟨hok s₂ hs₂.1, fun s₃ hs₃ => ⟨rfl, hs₂.1.trans (Quiet.erases hs₃), fun a hr => ?_⟩⟩
  exact (congrArg (·.objects key) hs₃.1).trans (hs₂.2 a hr)

theorem deleteAll_safe (keys) (hok : ∀ s', Erases keys sh s' → Allowed C good Next s') :
    Leaves (soloRules C good adm Next) (deleteAll keys : TierM β Unit) tier (Erases keys sh)
      (fun _ s' => ∀ key ∈ keys, s'.store.objects key = none) sh := by
  induction keys generalizing sh with
  | nil => exact Leaves.pure fun s' hs' => ⟨Quiet.erases hs', by simp⟩
  | cons key rest ih =>
    refine (delete_safe fun s' h => hok s' h.cons).seq (fun _ h => h.cons) fun _ s'
      herased hgone => ?_
    have hrest s'' (h : Erases rest s' s'') :
      Erases (key :: rest) sh s'' := herased.cons.trans (h.mono (by simp))
    exact (ih fun s'' h => hok s'' (hrest s'' h)).mono hrest fun _ s'' herased' hall =>
      forall_mem_cons.mpr ⟨herased'.none_of_none hgone, hall⟩

/-- The cleanup of an aborted transaction deletes the keys; without an error every key is gone. -/
theorem cleanupOwned_safe (keys) (err) (hok : ∀ s', Erases keys sh s' → Allowed C good Next s') :
    Leaves (soloRules C good adm Next)
      (cleanupOwned keys err : TierM β (Option TelemetryError)) tier
      (Erases keys sh)
        (fun res s' => res = none → err = none ∧ ∀ key ∈ keys, s'.store.objects key = none)
      sh := by
  induction keys generalizing sh err with
  | nil => exact Leaves.pure fun s' hs' => ⟨Quiet.erases hs', fun h => ⟨h, by simp⟩⟩
  | cons key rest ih =>
    refine (delete_safe fun s' h => hok s' h.cons).observe_bind fun r s' herased hgone => ?_
    have hrest s'' (h : Erases rest s' s'') :
      Erases (key :: rest) sh s'' := herased.cons.trans (h.mono (by simp))
    cases r with
    | ok a =>
      refine (ih err fun s'' h => hok s'' (hrest s'' h)).mono hrest fun res s'' herased'
        hall hnone => ?_
      refine ⟨(hall hnone).1, ?_⟩
      rintro other (_ | ⟨_, hmem⟩)
      · exact herased'.none_of_none (hgone a rfl)
      · exact (hall hnone).2 other hmem
    | error error =>
      refine (ih (err <|> some error) fun s'' h => hok s'' (hrest s'' h)).mono hrest
        fun res s'' _ hall hnone => absurd (hall hnone).1 ?_
      cases err <;> simp

/-- One put: it fails without effect, or one of the objects it may put is stored and described. -/
theorem put_safe {res : Response effect → TelemetryResult ObjectMetadata} {K : Object β → Prop}
    (hput : ∀ (s : Shared β) choice r s', s.perform C 0 choice effect = (r, s') →
      Put C K key s (res r) s')
    (hok : ∀ s', Stores [key] sh s' → Allowed C good Next s') :
    Leaves (soloRules C good adm Next) (attempt effect res) tier (Stores [key] sh)
      (fun md s' => ∃ obj ver, K obj ∧ md = C.metadata obj ver ∧
        s'.store.contents key = some obj) sh := by
  refine Safe.attempt fun s₁ hs₁ r s₂ ⟨_, choice, _, hperf⟩ => ?_
  have hs₁ : Stores [key] sh s₁ := Quiet.stores hs₁
  have hs₂ : Stores [key] sh s₂ ∧ ∀ md, res r = .ok md →
      ∃ obj ver, K obj ∧ md = C.metadata obj ver ∧ s₂.store.contents key = some obj := by
    rcases hput _ _ _ _ hperf with ⟨error, hr, rfl⟩ | ⟨obj, ver, hobj, hr, hstored⟩
    · exact ⟨hs₁, fun md h => by simp [hr] at h⟩
    · rw [hr]
      rcases hstored with ⟨hcont, rfl⟩ | ⟨hnone, rfl⟩
      · exact ⟨hs₁, fun _ h => ⟨obj, ver, hobj, (Except.ok.inj h).symm, hcont⟩⟩
      · refine ⟨hs₁.trans (.write mem_cons_self hnone obj), fun _ h => ?_⟩
        exact ⟨obj, ver, hobj, (Except.ok.inj h).symm, by simp [Shared.write]⟩
  refine ⟨hok s₂ hs₂.1, fun s₃ hs₃ => ⟨rfl, hs₂.1.trans (Quiet.stores hs₃), ?_⟩⟩
  simp only [hs₃.1]
  exact hs₂.2

/-- One upload: it fails, or the object is stored as expected. -/
theorem putUpload_safe {up : Upload β}
    (hok : ∀ s', Stores [up.key] sh s' → Allowed C good Next s') :
    Leaves (soloRules C good adm Next) (putUpload up) tier (Stores [up.key] sh)
      (fun _ s' => up.Stored C s'.store.contents) sh := by
  unfold putUpload Upload.Stored
  cases up.body with
  | bytes obj =>
    refine (put_safe (fun _ _ _ _ => perform_putBytes) hok).seq (fun _ h => h) ?_
    rintro md s' hstores ⟨_, _, rfl, -, hcont⟩
    refine Safe.ofExcept fun s'' hs'' => ⟨rfl, hstores.trans (Quiet.stores hs''), fun _ _ => ?_⟩
    exact (congrArg (·.contents up.key) hs''.1).trans hcont
  | file path =>
    refine (put_safe (fun _ _ _ _ => perform_putFile) hok).seq (fun _ h => h) ?_
    rintro md s' hstores ⟨_, ver, ⟨data, rfl⟩, rfl, hcont⟩
    refine Safe.ofExcept fun s'' hs'' => ⟨rfl, hstores.trans (Quiet.stores hs''), fun _ hr => ?_⟩
    obtain ⟨hbytes, hdig⟩ := verifyObjectMetadata_ok hr
    exact ⟨data, by rw [hs''.1]; exact hcont, hbytes, hdig⟩

theorem putUploads_safe (ups : List (Upload β))
    (hok : ∀ s', Stores (ups.map (·.key)) sh s' → Allowed C good Next s') :
    Leaves (soloRules C good adm Next) (putUploads ups) tier (Stores (ups.map (·.key)) sh)
      (fun _ s' => ∀ up ∈ ups, up.Stored C s'.store.contents) sh := by
  induction ups generalizing sh with
  | nil => exact Leaves.pure fun s' hs' => ⟨Quiet.stores hs', by simp⟩
  | cons up rest ih =>
    have hhead : ∀ s', Stores [up.key] sh s' → Stores ((up :: rest).map (·.key)) sh s' :=
      fun _ h => h.mono (by simp)
    refine (putUpload_safe fun s' h => hok s' (hhead s' h)).seq hhead fun _ s' hstores hstored => ?_
    have hrest :
        ∀ s'', Stores (rest.map (·.key)) s' s'' → Stores ((up :: rest).map (·.key)) sh s'' :=
      fun _ h => (hhead s' hstores).trans (h.mono (subset_cons_self _ _))
    exact (ih fun s'' h => hok s'' (hrest s'' h)).mono hrest fun _ s'' hstores' hall =>
      forall_mem_cons.mpr ⟨hstores'.stored hstored, hall⟩

end Methods

end ShardTelemetry.Tier
