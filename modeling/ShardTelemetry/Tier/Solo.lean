import ShardTelemetry.Tier.Ownership

/-!
# One writer at a time

The methods of a tier that is the only writer of its namespace.  Between two effects only readers
act: they drop and clone leases.  Every effect leaves the store holding a catalog with exact key
ownership, so a crash at any point does too; which catalogs a method may leave is the parameter
`Next`.

Under the flag `good` the steps are restricted to those that respect the leases
(`Shared.RespectsLeases`), and then everything a live lease reads stays in the store.
-/

namespace ShardTelemetry.Tier

variable {β : Type}

/-- The keys a lease reads: the leased root and what it reaches. -/
def leaseKeys (view : View β) (lease : Lease) : List Key :=
  lease.rootKey.toList ++ reachedKeys view lease.root.pages

/-- The leased root is still stored, and everything it reaches is intact. -/
def LeaseIntact (C : Codec β) (view : View β) (lease : Lease) : Prop :=
  (∀ key, lease.rootKey = some key → view key ≠ none) ∧ PagesIntact C view lease.root.pages

/-- The pointer `CURRENT` selects and the root it names. -/
def selectedRoot (view : View β) : Option (CatalogPointer × CatalogRoot) :=
  match view .current with
  | some (.pointer pointer) =>
    match view pointer.rootKey with
    | some (.root root) => some (pointer, root)
    | _ => none
  | _ => none

/-- If the effect moves `CURRENT`: the pointer and the root it selected, and the root it selects
from then on. -/
def Shared.moves (shared : Shared β) :
    Effect β → Option (CatalogPointer × CatalogRoot × CatalogRoot)
  | .compareAndSwap .current expectedVersion (.pointer pointer) =>
    match shared.store.contents pointer.rootKey with
    | some (.root nextRoot) =>
      if shared.store.version .current = expectedVersion then
        (selectedRoot shared.store.contents).map fun (selected, root) => (selected, root, nextRoot)
      else none
    | _ => none
  | _ => none

/-- An effect respects the leases: if it moves `CURRENT`, then no key the new root retires, and the
old root had not, is read by a lease of a root older than the old one. -/
def Shared.RespectsLeases (shared : Shared β) (effect : Effect β) : Prop :=
  ∀ move ∈ shared.moves effect, ∀ lease ∈ shared.leases, lease.rootKey ≠ some move.1.rootKey →
    ∀ key ∈ retiredKeys move.2.2.retiredObjects, key ∉ retiredKeys move.2.1.retiredObjects →
      key ∉ leaseKeys shared.store.contents lease

instance (shared : Shared β) (effect : Effect β) : Decidable (shared.RespectsLeases effect) :=
  inferInstanceAs (Decidable (∀ move ∈ shared.moves effect, _))

/-- What a live lease reads is intact and not younger than the root, the deletion of a retired key
it reads is deferred by its own handle, and a lease of the current root shares the tier's
allocation. -/
structure LeaseOk (C : Codec β) (view : View β) (tier : TelemetryObjectTier)
    (retired : List RetiredObject) (lease : Lease) : Prop where
  owner : lease.owner = 0
  intact : LeaseIntact C view lease
  bound : ∀ key ∈ leaseKeys view lease, ∃ transaction path, key = .object transaction path ∧
    transaction.generation ≤ tier.root.generation
  deferred : ∀ entry ∈ retired, entry.objectKey ∈ leaseKeys view lease →
    tier.retiredLeases entry.objectKey = some lease.handle
  current : lease.rootKey = tier.currentRootKey → lease.handle = tier.rootHandle

section Definitions

variable (C : Codec β) (good : Prop)

/-- The store holds this catalog, and the leases are intact. -/
structure Held (catalog : Catalog) (shared : Shared β) : Prop where
  owned : catalog.Owned C shared.store.contents
  leases : good → ∀ lease ∈ shared.leases, LeaseIntact C shared.store.contents lease

/-- The tier agrees with the store on this catalog; `retired` are the retired objects it has not
seen deleted. -/
structure Consistent (catalog : Catalog) (tier : TelemetryObjectTier)
    (retired : List RetiredObject) (shared : Shared β) : Prop where
  owned : catalog.Owned C shared.store.contents
  loaded : catalog.Loaded tier retired
  version : tier.currentVersion = shared.store.version .current
  gone : ∀ entry ∈ catalog.root.retiredObjects, entry ∈ retired ∨
    shared.store.contents entry.objectKey = none
  leases : good → ∀ lease ∈ shared.leases, LeaseOk C shared.store.contents tier retired lease

/-- Only leases were dropped or cloned. -/
def Quiet (shared shared' : Shared β) : Prop :=
  shared'.store = shared.store ∧ shared'.leases ⊆ shared.leases

/-- The rules for a single writer: only leases are dropped or cloned between its effects, and every
effect leaves a catalog that `Next` allows. -/
def soloRules [DecidableEq β] (admissible : Choice β → Prop) (Next : Catalog → Prop) :
    Rules (Effect β) Response (Shared β) where
  step effect shared response shared' := (good → shared.RespectsLeases effect) ∧
    ∃ choice, admissible choice ∧ shared.perform C 0 choice effect = (response, shared')
  rely := Quiet
  guar _ shared' := ∃ catalog, Held C good catalog shared' ∧ Next catalog
  rely_refl _ := ⟨rfl, fun _ h => h⟩
  rely_trans h h' := ⟨h'.1.trans h.1, fun _ hmem => h.2 (h'.2 hmem)⟩

end Definitions

section Lemmas

variable {C : Codec β} {sh : Shared β}

theorem mem_leaseKeys : key ∈ leaseKeys view lease ↔
    lease.rootKey = some key ∨ key ∈ reachedKeys view lease.root.pages := by
  simp [leaseKeys]

theorem leaseKeys_congr (hview : ∀ key ∈ leaseKeys view lease, view' key = view key) :
    leaseKeys view' lease = leaseKeys view lease := by
  unfold leaseKeys
  rw [reachedKeys_congr fun key hkey => hview key (mem_leaseKeys.mpr (.inr hkey))]

theorem LeaseIntact.congr (h : LeaseIntact C view lease)
    (hview : ∀ key ∈ leaseKeys view lease, view' key = view key) : LeaseIntact C view' lease := by
  refine ⟨fun key hkey => ?_, h.2.congr fun key hkey => hview key (mem_leaseKeys.mpr (.inr hkey))⟩
  rw [hview key (mem_leaseKeys.mpr (.inl hkey))]
  exact h.1 key hkey

theorem LeaseOk.congr (h : LeaseOk C view tier rets lease)
    (hview : ∀ key ∈ leaseKeys view lease, view' key = view key) :
    LeaseOk C view' tier rets lease where
  owner := h.owner
  intact := h.intact.congr hview
  bound key hkey := h.bound key (leaseKeys_congr hview ▸ hkey)
  deferred entry hmem hkey := h.deferred entry hmem (leaseKeys_congr hview ▸ hkey)
  current := h.current

theorem Quiet.refl (sh : Shared β) : Quiet sh sh := ⟨rfl, fun _ h => h⟩

theorem Quiet.trans (h : Quiet sh sh') (h' : Quiet sh' shared'') : Quiet sh shared'' :=
  ⟨h'.1.trans h.1, fun _ hmem => h.2 (h'.2 hmem)⟩

theorem Held.quiet (h : Held C good cat sh) (hquiet : Quiet sh sh') : Held C good cat sh' :=
  ⟨hquiet.1 ▸ h.owned, fun hgood lease hmem => hquiet.1 ▸ h.leases hgood lease (hquiet.2 hmem)⟩

section

variable (h : Consistent C good cat tier rets sh)
include h

theorem Consistent.held : Held C good cat sh :=
  ⟨h.owned, fun hgood lease hmem => (h.leases hgood lease hmem).intact⟩

/-- Readers do not disturb the tier. -/
theorem Consistent.quiet (hquiet : Quiet sh sh') : Consistent C good cat tier rets sh' where
  owned := hquiet.1 ▸ h.owned
  loaded := h.loaded
  version := hquiet.1 ▸ h.version
  gone := hquiet.1 ▸ h.gone
  leases hgood lease hmem := hquiet.1 ▸ h.leases hgood lease (hquiet.2 hmem)

/-- The tier stays in agreement when keys change that neither the catalog nor a lease uses. -/
theorem Consistent.of_owned (howned : cat.Owned C sh'.store.contents)
    (hver : sh'.store.version .current = sh.store.version .current)
    (hgone : ∀ entry ∈ cat.root.retiredObjects, sh.store.contents entry.objectKey = none →
      sh'.store.contents entry.objectKey = none) (hls : sh'.leases ⊆ sh.leases)
    (hkeys : good → ∀ lease ∈ sh.leases, ∀ key ∈ leaseKeys sh.store.contents lease,
      sh'.store.contents key = sh.store.contents key) : Consistent C good cat tier rets sh' where
  owned := howned
  loaded := h.loaded
  version := h.version.trans hver.symm
  gone entry hmem := (h.gone entry hmem).imp_right (hgone entry hmem)
  leases hgood lease hmem :=
    (h.leases hgood lease (hls hmem)).congr (hkeys hgood lease (hls hmem))

/-- A key of a later transaction is not read by any lease. -/
theorem Consistent.fresh_unleased (hgood : good) (hlease : lease ∈ sh.leases)
    (hgen : tier.root.generation < tx.generation) :
    .object tx path ∉ leaseKeys sh.store.contents lease := by
  intro hkey
  obtain ⟨tx', path', heq, hle⟩ := (h.leases hgood lease hlease).bound _ hkey
  obtain ⟨rfl, -⟩ := Key.object.inj heq
  omega

end

end Lemmas

end ShardTelemetry.Tier
