import ShardTelemetry.Tier.Retention

/-!
# Exact key ownership

An abstract catalog is a selected root, its key and the groups it holds.  `Owned` says that the
store holds this catalog and that every key has an owner: it is one of the two fixed keys, it is
selected or reached by the root, the root has retired it, or the `PENDING` record owns it.  The
record belongs to the transaction that produced the root, or to one that would produce the next.

The lemmas are the moves of the protocol on `Owned`.
-/

namespace ShardTelemetry.Tier

open Function

variable {β : Type}

/-- A selected root with its key, none before the first publication, and the groups it holds. -/
structure Catalog where
  rootKey : Option Key
  root : CatalogRoot
  groups : List CatalogGroupEntry

/-- The keys a catalog needs. -/
def Catalog.Uses (catalog : Catalog) (view : View β) (key : Key) : Prop :=
  key = .current ∨ catalog.rootKey = some key ∨ key ∈ reachedKeys view catalog.root.pages

section Definitions

variable (C : Codec β) (view : View β)

/-- `CURRENT` selects this root; before the first publication it is absent and the root is empty. -/
def Catalog.Selected (catalog : Catalog) : Prop :=
  match catalog.rootKey with
  | none => view .current = none ∧ catalog.root.pages = [] ∧ catalog.root.retiredObjects = [] ∧
      catalog.root.generation = 0
  | some key => ∃ pointer, view .current = some (.pointer pointer) ∧ pointer.rootKey = key ∧
      Recorded C view key pointer.rootBytes pointer.rootChecksum (.root catalog.root) ∧
      pointer.generation = catalog.root.generation

/-- The store holds the catalog. -/
structure Catalog.Stands (catalog : Catalog) : Prop where
  selected : catalog.Selected C view
  ok : RootOk C view catalog.rootKey catalog.root
  groups_eq : catalogGroups view catalog.root.pages = catalog.groups

/-- The owner in `PENDING` is the transaction that produced the root, which then is or reaches
everything it owns, or one that would produce the next root. -/
def Catalog.PendingOk (catalog : Catalog) (transaction : CatalogTransaction) : Prop :=
  (∀ key ∈ transaction.ownedObjects, ∃ id path, key = .object id path ∧
      id.generation = transaction.targetGeneration) ∧
    (transaction.targetGeneration = catalog.root.generation + 1 ∨
      (transaction.targetGeneration = catalog.root.generation ∧
        catalog.rootKey = some transaction.targetRootKey ∧
        ∀ key ∈ transaction.ownedObjects, catalog.Uses view key))

/-- The store holds the catalog and every key has its owner. -/
structure Catalog.Owned (catalog : Catalog) : Prop where
  stands : catalog.Stands C view
  accounted : ∀ key, view key ≠ none → key = .pending ∨ catalog.Uses view key ∨
    key ∈ retiredKeys catalog.root.retiredObjects ∨
    ∃ transaction, view .pending = some (.transaction transaction) ∧ key ∈ transaction.ownedObjects
  pending : ∀ object, view .pending = some object → ∃ transaction,
    object = .transaction transaction ∧ catalog.PendingOk view transaction

end Definitions

namespace Catalog

variable {C : Codec β} {view : View β} {cat : Catalog}

theorem Uses.congr (hview : ∀ key, cat.Uses view key → view' key = view key) :
    cat.Uses view' key ↔ cat.Uses view key := by
  have hreach : reachedKeys view' cat.root.pages = reachedKeys view cat.root.pages :=
    reachedKeys_congr fun key hkey => hview key (.inr (.inr hkey))
  rw [Uses, Uses, hreach]

section

variable (h : cat.Stands C view)
include h

/-- A catalog stands in every view that agrees on the keys it uses. -/
theorem Stands.congr (hview : ∀ key, cat.Uses view key → view' key = view key) :
    cat.Stands C view' := by
  have hreach : ∀ key ∈ reachedKeys view cat.root.pages, view' key = view key :=
    fun key hkey => hview key (.inr (.inr hkey))
  refine ⟨?_, h.ok.congr hreach, (catalogGroups_congr_reached hreach).trans h.groups_eq⟩
  have hsel := h.selected
  have hcur := hview .current (.inl rfl)
  unfold Selected at hsel ⊢
  split
  · next hnone => rw [hnone] at hsel; rwa [hcur]
  · next key hkey =>
    rw [hkey] at hsel
    obtain ⟨ptr, hptr, hrootKey, ⟨hroot, hrec⟩, hgen⟩ := hsel
    exact ⟨ptr, hcur.trans hptr, hrootKey, ⟨(hview key (.inr (.inl hkey))).trans hroot, hrec⟩, hgen⟩

/-- What a catalog uses below transactions is not younger than its root. -/
theorem Stands.uses_shape (hkey : cat.Uses view key) :
    key = .current ∨ ∃ tx path, key = .object tx path ∧ tx.generation ≤ cat.root.generation := by
  rcases hkey with rfl | hroot | hreach
  · exact .inl rfl
  · obtain ⟨tx, digest, rfl, heq⟩ := h.ok.rootKey_shape key hroot
    exact .inr ⟨tx, _, rfl, heq.le⟩
  · exact .inr (h.ok.reached_shape hreach)

/-- The selected root is stored. -/
theorem Stands.rootKey_present (hkey : cat.rootKey = some key) :
    view key = some (.root cat.root) := by
  have hsel := h.selected
  rw [Selected, hkey] at hsel
  obtain ⟨-, -, -, ⟨hroot, -⟩, -⟩ := hsel
  exact hroot

theorem Stands.pending_unused : ¬ cat.Uses view .pending := by
  intro hkey
  rcases h.uses_shape hkey with hkey | ⟨tx, path, hkey, -⟩ <;> cases hkey

theorem Stands.update_pending (value) (key) (hkey : cat.Uses view key) :
    update view .pending value key = view key := by
  refine update_of_ne ?_ _ _
  rintro rfl
  exact h.pending_unused hkey

/-- A key of a later transaction is not in use. -/
theorem Stands.fresh_unused
    (hgen : cat.root.generation < tx.generation) : ¬ cat.Uses view (.object tx path) := by
  intro hkey
  rcases h.uses_shape hkey with hkey | ⟨tx', path', hkey, hle⟩
  · cases hkey
  · obtain ⟨rfl, -⟩ := Key.object.inj hkey
    omega

/-- A retired key is not in use. -/
theorem Stands.retired_unused (hmem : rets ∈ cat.root.retiredObjects) :
    ¬ cat.Uses view rets.objectKey := by
  rintro (hkey | hkey | hkey)
  · obtain ⟨tx, path, hshape, -⟩ := h.ok.retired_shape rets hmem
    simp [hshape] at hkey
  · exact h.ok.retired_unselected rets hmem hkey
  · exact h.ok.retired_unreached rets hmem hkey

end

theorem PendingOk.congr (h : cat.PendingOk view tx)
    (hview : ∀ key, cat.Uses view key → view' key = view key) : cat.PendingOk view' tx :=
  ⟨h.1, h.2.imp_right fun ⟨hgen, hroot, howned⟩ =>
    ⟨hgen, hroot, fun key hkey => (Uses.congr hview).mpr (howned key hkey)⟩⟩

section

variable (h : cat.Owned C view)
include h

/-- Keys that are not in use may disappear, `PENDING` excepted. -/
theorem Owned.shrink (hshrink : ∀ key, view' key = view key ∨
    (view' key = none ∧ ¬ cat.Uses view key))
    (hpend : view' .pending = view .pending) : cat.Owned C view' := by
  have hview : ∀ key, cat.Uses view key → view' key = view key :=
    fun key hkey => (hshrink key).resolve_right fun ⟨_, hunused⟩ => hunused hkey
  refine ⟨h.stands.congr hview, fun key hkey => ?_, fun obj hobj => ?_⟩
  · have hkey' : view key ≠ none := by
      rcases hshrink key with heq | ⟨hnone, -⟩
      · rwa [← heq]
      · exact absurd hnone hkey
    rw [Uses.congr hview, hpend]
    exact h.accounted key hkey'
  · obtain ⟨tx, rfl, hok⟩ := h.pending obj (hpend ▸ hobj)
    exact ⟨tx, rfl, hok.congr hview⟩

/-- `PENDING` may be cleared once nothing depends on its ownership. -/
theorem Owned.clear_pending (hclean : ∀ tx, view .pending = some (.transaction tx) →
      ∀ key ∈ tx.ownedObjects, view key = none ∨ cat.Uses view key) :
    cat.Owned C (update view .pending none) := by
  have hview := h.stands.update_pending none
  refine ⟨h.stands.congr hview, fun key hkey => ?_, fun obj hobj => ?_⟩
  · have hne : key ≠ .pending := by
      rintro rfl
      simp at hkey
    rw [update_of_ne hne] at hkey
    rw [Uses.congr hview]
    rcases h.accounted key hkey with hpend | huses | hret | ⟨tx, hpend, howned⟩
    · exact absurd hpend hne
    · exact .inr (.inl huses)
    · exact .inr (.inr (.inl hret))
    · exact .inr (.inl ((hclean tx hpend key howned).resolve_left hkey))
  · simp at hobj

/-- A transaction that would produce the next root may take `PENDING`. -/
theorem Owned.take_pending (hnone : view .pending = none)
    (hkeys : ∀ key ∈ tx.ownedObjects, ∃ id path, key = .object id path ∧
      id.generation = tx.targetGeneration) (hgen : tx.targetGeneration = cat.root.generation + 1) :
    cat.Owned C (update view .pending (some (.transaction tx))) := by
  have hview := h.stands.update_pending (some (.transaction tx))
  refine ⟨h.stands.congr hview, fun key hkey => ?_, fun obj hobj => ?_⟩
  · by_cases hne : key = .pending
    · exact .inl hne
    · rw [update_of_ne hne] at hkey
      rw [Uses.congr hview]
      rcases h.accounted key hkey with hpend | huses | hret | ⟨other, hpend, -⟩
      · exact absurd hpend hne
      · exact .inr (.inl huses)
      · exact .inr (.inr (.inl hret))
      · simp [hnone] at hpend
  · exact ⟨tx, (Option.some.inj hobj).symm, hkeys, .inl hgen⟩

/-- The transaction in `PENDING` may store what it owns. -/
theorem Owned.store (hpend : view .pending = some (.transaction tx))
    (hgen : tx.targetGeneration = cat.root.generation + 1)
    (hstore : ∀ key, view' key = view key ∨ key ∈ tx.ownedObjects) : cat.Owned C view' := by
  obtain ⟨tx', heq, hkeys, -⟩ := h.pending _ hpend
  obtain rfl : tx = tx' := by simpa using heq
  have howned : ∀ key ∈ tx.ownedObjects, key ≠ .pending ∧ ¬ cat.Uses view key := by
    intro key hkey
    obtain ⟨id, path, rfl, hid⟩ := hkeys key hkey
    exact ⟨by simp, h.stands.fresh_unused (by omega)⟩
  have hview : ∀ key, cat.Uses view key → view' key = view key :=
    fun key hkey => (hstore key).resolve_right fun hmem => (howned key hmem).2 hkey
  have hpending' : view' .pending = view .pending :=
    (hstore .pending).resolve_right fun hmem => (howned _ hmem).1 rfl
  refine ⟨h.stands.congr hview, fun key hkey => ?_, fun obj hobj => ?_⟩
  · rw [Uses.congr hview, hpending']
    rcases hstore key with heq | hmem
    · exact h.accounted key (heq ▸ hkey)
    · exact .inr (.inr (.inr ⟨tx, hpend, hmem⟩))
  · obtain ⟨tx', rfl, hok⟩ := h.pending obj (hpending' ▸ hobj)
    exact ⟨tx', rfl, hok.congr hview⟩

end

/-! ### Selecting the next root -/

/-- A tier agrees with a catalog, except that its list `retired` of retired objects may be
shorter. -/
structure Loaded (catalog : Catalog) (tier : TelemetryObjectTier) (retired : List RetiredObject) :
    Prop where
  rootKey_eq : tier.currentRootKey = catalog.rootKey
  root_eq : tier.root = { catalog.root with retiredObjects := tier.root.retiredObjects }
  retired_mem : ∀ entry ∈ retired, entry ∈ catalog.root.retiredObjects

theorem Loaded.pages_eq (h : cat.Loaded tier rets) : tier.root.pages = cat.root.pages := by
  rw [h.root_eq]

theorem Loaded.generation_eq (h : cat.Loaded tier rets) :
    tier.root.generation = cat.root.generation := by
  rw [h.root_eq]

/-- The root in memory is well formed with the retired objects the tier still knows. -/
theorem Loaded.rootOk (h : cat.Loaded tier tier.root.retiredObjects)
    (hok : RootOk C view cat.rootKey cat.root) : RootOk C view tier.currentRootKey tier.root := by
  have hpages := h.pages_eq
  have hgen := h.generation_eq
  refine ⟨?_, ?_, ?_, ?_, ?_, fun entry hmem => ?_, fun entry hmem => ?_, fun entry hmem => ?_⟩
  · rw [hpages]; exact hok.intact
  · rw [h.rootKey_eq, hgen]; exact hok.rootKey_shape
  · rw [hpages, hgen]; exact hok.page_shape
  · rw [hpages, hgen]; exact hok.group_shape
  · rw [hpages]; exact hok.ordered
  · rw [hgen]; exact hok.retired_shape entry (h.retired_mem entry hmem)
  · rw [h.rootKey_eq]; exact hok.retired_unselected entry (h.retired_mem entry hmem)
  · rw [hpages]; exact hok.retired_unreached entry (h.retired_mem entry hmem)

/-- The catalog a publication produces. -/
def next (publication : Publication β) (nextGroups : List CatalogGroupEntry) : Catalog where
  rootKey := some publication.pointer.rootKey
  root := publication.nextRoot
  groups := nextGroups

/-- Once the uploads of a derived publication are stored, `CURRENT` may select its root. -/
theorem Owned.commit (h : cat.Owned C view) (hloaded : cat.Loaded tier tier.root.retiredObjects)
    (hgone : ∀ entry ∈ cat.root.retiredObjects,
      entry ∈ tier.root.retiredObjects ∨ view entry.objectKey = none)
    (hder : Derives C view₀ tier pub nextGroups)
    (hkept : ∀ key ∈ reachedKeys view₀ tier.root.pages, view key = view₀ key)
    (hpend : view .pending = some (.transaction pub.transaction))
    (hput : ∀ up ∈ pub.uploads, up.Stored C view) :
    (next pub nextGroups).Owned C (update view .current (some (.pointer pub.pointer))) := by
  obtain ⟨_, heq, hkeys, -⟩ := h.pending _ hpend
  obtain rfl := Object.transaction.inj heq
  set view' := update view .current (some (.pointer pub.pointer)) with hview'
  have hne : ∀ key, key ≠ .current → view' key = view key := fun key hkey => update_of_ne hkey _ _
  have hobj : ∀ up ∈ pub.uploads, up.key ≠ .current := by
    intro up hmem heq
    obtain ⟨id, path, hkey, -⟩ := hkeys up.key (hder.owned ▸ List.mem_map_of_mem hmem)
    simp [hkey] at heq
  have hok₀ : RootOk C view₀ tier.currentRootKey tier.root := by
    refine (hloaded.rootOk h.stands.ok).congr fun key hkey => ?_
    rw [reachedKeys_congr hkept] at hkey
    exact (hkept key hkey).symm
  have hkept' : ∀ key ∈ reachedKeys view₀ tier.root.pages, view' key = view₀ key := by
    intro key hkey
    obtain ⟨tx, path, rfl, -⟩ := hok₀.reached_shape hkey
    exact (hne _ (by simp)).trans (hkept _ hkey)
  have hstored' : ∀ up ∈ pub.uploads, up.Stored C view' := by
    intro up hmem
    have hupload := hput up hmem
    unfold Upload.Stored Recorded at hupload ⊢
    rwa [hne _ (hobj up hmem)]
  have huses : ∀ key, cat.Uses view key → (next pub nextGroups).Uses view' key ∨
      key ∈ retiredKeys pub.nextRoot.retiredObjects := by
    rintro key (rfl | hroot | hreach)
    · exact .inl (.inl rfl)
    · refine (hder.accounts hstored' hkept' (.inl (hloaded.rootKey_eq.trans hroot))).imp_left ?_
      exact fun hkey => .inr (.inr hkey)
    · rw [← hloaded.pages_eq, reachedKeys_congr hkept] at hreach
      exact (hder.accounts hstored' hkept' (.inr (.inl hreach))).imp_left fun hkey =>
        .inr (.inr hkey)
  have howned : ∀ key ∈ pub.transaction.ownedObjects,
      (next pub nextGroups).Uses view' key := by
    intro key hkey
    rw [hder.owned] at hkey
    obtain ⟨up, hmem, rfl⟩ := List.mem_map.mp hkey
    exact .inr ((hder.upload_reached hstored' hkept' hmem).imp_left fun heq =>
      congrArg some heq.symm)
  refine ⟨⟨?_, hder.rootOk hok₀ hstored' hkept', hder.catalogGroups_eq hstored' hkept'⟩,
    fun key hkey => ?_, fun obj hobj => ?_⟩
  · obtain ⟨up, hmem, hkey, hbody⟩ := hder.root_upload
    have hroot := hstored' up hmem
    rw [Upload.Stored, hbody, hkey] at hroot
    exact ⟨pub.pointer, update_self _ _ _, rfl,
      ⟨hroot, hder.pointer_bytes, hder.pointer_checksum⟩, hder.pointer_generation⟩
  · by_cases hcur : key = .current
    · exact .inr (.inl (.inl hcur))
    · rw [hne key hcur] at hkey
      rcases h.accounted key hkey with rfl | hkey' | hret | ⟨tx, hother, hmem⟩
      · exact .inl rfl
      · exact .inr ((huses key hkey').imp_right .inl)
      · obtain ⟨entry, hmem, rfl⟩ := List.mem_map.mp hret
        have hmem' := (hgone entry hmem).resolve_right hkey
        exact .inr (.inr (.inl ((hder.retired _).mpr (.inl (List.mem_map_of_mem hmem')))))
      · rw [hpend] at hother
        obtain rfl := Object.transaction.inj (Option.some.inj hother)
        exact .inr (.inl (howned key hmem))
  · rw [hne _ (by simp), hpend] at hobj
    refine ⟨pub.transaction, (Option.some.inj hobj).symm, hkeys, .inr ⟨?_, ?_, howned⟩⟩
    · rw [hder.target_generation, ← hder.generation]; rfl
    · rw [hder.target_key]; rfl

end Catalog

end ShardTelemetry.Tier
