import ShardTelemetry.Tier.Protocol
import Mathlib.Data.List.Pairwise

/-!
# What a catalog root reaches

The abstract reading of the store: a *view* maps keys to contents, a root reaches its pages, the
manifests of their groups and the artifacts of those, and a root is *intact* in a view when
everything it reaches is there with the recorded length and digest.

`RootOk` is the well-formedness of a root in a view: it is intact, keys have the shape the publisher
gives them, group sequences increase along the whole catalog, and the retired keys are not reached.
It only depends on the view at the keys the root reaches (`RootOk.congr`).
-/

namespace ShardTelemetry.Tier

variable {β : Type}

/-- Contents by key. -/
abbrev View (β : Type) : Type := Key → Option (Object β)

section Reach

variable (view : View β)

/-- The groups of a referenced page. -/
def pageGroups (reference : CatalogPageRef) : List CatalogGroupEntry :=
  match view reference.pageKey with
  | some (.page page) => page.groups
  | _ => []

/-- The groups of a list of pages, in order. -/
def catalogGroups (pages : List CatalogPageRef) : List CatalogGroupEntry :=
  pages.flatMap (pageGroups view)

/-- The artifact keys of a group. -/
def groupArtifacts (group : CatalogGroupEntry) : List TierArtifact :=
  match view group.manifestKey with
  | some (.manifest manifest) => manifest.artifacts
  | _ => []

/-- The keys of a group: its manifest and its artifacts. -/
def groupKeys (group : CatalogGroupEntry) : List Key :=
  group.manifestKey :: (groupArtifacts view group).map (·.objectKey)

/-- The keys a list of pages reaches. -/
def reachedKeys (pages : List CatalogPageRef) : List Key :=
  pages.map (·.pageKey) ++ (catalogGroups view pages).flatMap (groupKeys view)

end Reach

section Intact

variable (C : Codec β) (view : View β)

/-- An object is stored under a key with the recorded length and digest. -/
def Recorded (key : Key) (bytes : Nat) (checksum : Digest) (object : Object β) : Prop :=
  view key = some object ∧ C.size object = bytes ∧ C.digest object = checksum

def GroupIntact (group : CatalogGroupEntry) : Prop :=
  ∃ manifest, Recorded C view group.manifestKey group.manifestBytes group.manifestChecksum
      (.manifest manifest) ∧
    ∀ artifact ∈ manifest.artifacts, ∃ contents,
      Recorded C view artifact.objectKey artifact.bytes artifact.checksum (.artifact contents)

def PageIntact (reference : CatalogPageRef) : Prop :=
  ∃ page, Recorded C view reference.pageKey reference.pageBytes reference.pageChecksum
      (.page page) ∧
    ∀ group ∈ page.groups, GroupIntact C view group

/-- Every page, manifest and artifact of the pages is present with the recorded digest. -/
def PagesIntact (pages : List CatalogPageRef) : Prop :=
  ∀ reference ∈ pages, PageIntact C view reference

/-- The keys of a group have the publisher's shape, below transactions up to a generation. -/
def GroupShape (generation : Nat) (group : CatalogGroupEntry) : Prop :=
  (∃ transaction digest, group.manifestKey = .object transaction
      (.manifest group.groupSequence digest) ∧ transaction.generation ≤ generation) ∧
    ∀ artifact ∈ groupArtifacts view group, ∃ transaction label digest,
      artifact.objectKey = .object transaction (.artifact group.groupSequence label digest) ∧
        transaction.generation ≤ generation

/-- The key of a page has the publisher's shape, below a transaction up to a generation. -/
def PageShape (generation : Nat) (reference : CatalogPageRef) : Prop :=
  ∃ transaction digest, reference.pageKey =
    .object transaction (.page reference.pageSequence digest) ∧ transaction.generation ≤ generation

/-- Well-formedness of a root and its key (none before the first publication) in a view. -/
structure RootOk (rootKey : Option Key) (root : CatalogRoot) : Prop where
  intact : PagesIntact C view root.pages
  rootKey_shape : ∀ key, rootKey = some key → ∃ transaction digest,
    key = .object transaction (.root root.generation digest) ∧
      transaction.generation = root.generation
  page_shape : ∀ reference ∈ root.pages, PageShape root.generation reference
  group_shape : ∀ group ∈ catalogGroups view root.pages, GroupShape view root.generation group
  ordered : (catalogGroups view root.pages).Pairwise (·.groupSequence < ·.groupSequence)
  retired_shape : ∀ retired ∈ root.retiredObjects, ∃ transaction path,
    retired.objectKey = .object transaction path ∧ transaction.generation ≤ root.generation
  retired_unselected : ∀ retired ∈ root.retiredObjects, rootKey ≠ some retired.objectKey
  retired_unreached :
    ∀ retired ∈ root.retiredObjects, retired.objectKey ∉ reachedKeys view root.pages

end Intact

/-! ## Membership in the reached keys -/

section Membership

variable {group : CatalogGroupEntry} {art : TierArtifact} {key : Key}

theorem mem_catalogGroups : group ∈ catalogGroups view pages ↔
    ∃ ref ∈ pages, group ∈ pageGroups view ref :=
  List.mem_flatMap

theorem mem_reachedKeys : key ∈ reachedKeys view pages ↔ (∃ ref ∈ pages, ref.pageKey = key) ∨
      ∃ group ∈ catalogGroups view pages, key ∈ groupKeys view group := by
  simp [reachedKeys]

theorem mem_groupKeys : key ∈ groupKeys view group ↔
    key = group.manifestKey ∨ ∃ art ∈ groupArtifacts view group, art.objectKey = key := by
  simp [groupKeys]

theorem pageKey_mem_reachedKeys (h : ref ∈ pages) : ref.pageKey ∈ reachedKeys view pages :=
  mem_reachedKeys.mpr (.inl ⟨ref, h, rfl⟩)

theorem groupKeys_subset_reachedKeys (h : group ∈ catalogGroups view pages)
    (hkey : key ∈ groupKeys view group) : key ∈ reachedKeys view pages :=
  mem_reachedKeys.mpr (.inr ⟨group, h, hkey⟩)

theorem manifestKey_mem_groupKeys : group.manifestKey ∈ groupKeys view group :=
  .head _

theorem artifactKey_mem_groupKeys (h : art ∈ groupArtifacts view group) :
    art.objectKey ∈ groupKeys view group :=
  mem_groupKeys.mpr (.inr ⟨art, h, rfl⟩)

@[simp] theorem catalogGroups_nil : catalogGroups view [] = [] := rfl

@[simp] theorem catalogGroups_append (pages pages') :
    catalogGroups view (pages ++ pages') = catalogGroups view pages ++ catalogGroups view pages' :=
  List.flatMap_append

@[simp] theorem catalogGroups_cons (ref) (pages) :
    catalogGroups view (ref :: pages) = pageGroups view ref ++ catalogGroups view pages :=
  List.flatMap_cons

theorem pageGroups_of_page (h : view ref.pageKey = some (.page page)) :
    pageGroups view ref = page.groups := by
  simp only [pageGroups, h]

theorem groupArtifacts_of_manifest (h : view group.manifestKey = some (.manifest mf)) :
    groupArtifacts view group = mf.artifacts := by
  simp only [groupArtifacts, h]

end Membership

/-! ## Only the reached keys matter -/

section Congr

variable {C : Codec β} {view view' : View β} {pages : List CatalogPageRef}

theorem pageGroups_congr (h : view' ref.pageKey = view ref.pageKey) :
    pageGroups view' ref = pageGroups view ref := by
  simp only [pageGroups, h]

theorem groupArtifacts_congr (h : view' group.manifestKey = view group.manifestKey) :
    groupArtifacts view' group = groupArtifacts view group := by
  simp only [groupArtifacts, h]

theorem groupKeys_congr (h : view' group.manifestKey = view group.manifestKey) :
    groupKeys view' group = groupKeys view group := by
  simp only [groupKeys, groupArtifacts_congr h]

theorem catalogGroups_congr (h : ∀ ref ∈ pages, view' ref.pageKey = view ref.pageKey) :
    catalogGroups view' pages = catalogGroups view pages := by
  induction pages with
  | nil => rfl
  | cons ref rest ih =>
    rw [catalogGroups_cons, catalogGroups_cons, pageGroups_congr (h ref (by simp)),
      ih fun ref hmem => h ref (by simp [hmem])]

section

variable (h : ∀ key ∈ reachedKeys view pages, view' key = view key)
include h

theorem catalogGroups_congr_reached : catalogGroups view' pages = catalogGroups view pages :=
  catalogGroups_congr fun _ hmem => h _ (pageKey_mem_reachedKeys hmem)

theorem reachedKeys_congr : reachedKeys view' pages = reachedKeys view pages := by
  unfold reachedKeys
  rw [catalogGroups_congr_reached h]
  refine congrArg _ (List.flatMap_congr fun group hgroup => groupKeys_congr ?_)
  exact h _ (groupKeys_subset_reachedKeys hgroup manifestKey_mem_groupKeys)

end

theorem GroupIntact.congr (h : GroupIntact C view group)
    (hview : ∀ key ∈ groupKeys view group, view' key = view key) : GroupIntact C view' group := by
  obtain ⟨mf, ⟨hkey, hsize, hdig⟩, hartifacts⟩ := h
  have hman := hview _ manifestKey_mem_groupKeys
  refine ⟨mf, ⟨hman.trans hkey, hsize, hdig⟩, fun art hmem => ?_⟩
  obtain ⟨data, hcont, hrest⟩ := hartifacts art hmem
  rw [← groupArtifacts_of_manifest hkey] at hmem
  exact ⟨data, (hview _ (artifactKey_mem_groupKeys hmem)).trans hcont, hrest⟩

theorem PagesIntact.congr (h : PagesIntact C view pages)
    (hview : ∀ key ∈ reachedKeys view pages, view' key = view key) : PagesIntact C view' pages := by
  intro ref hmem
  obtain ⟨page, ⟨hkey, hsize, hdig⟩, hgroups⟩ := h ref hmem
  refine ⟨page, ⟨(hview _ (pageKey_mem_reachedKeys hmem)).trans hkey, hsize, hdig⟩,
    fun group hgroup => (hgroups group hgroup).congr fun key hkey' => ?_⟩
  have hcat : group ∈ catalogGroups view pages :=
    mem_catalogGroups.mpr ⟨ref, hmem, (pageGroups_of_page hkey).symm ▸ hgroup⟩
  exact hview key (groupKeys_subset_reachedKeys hcat hkey')

theorem GroupShape.congr (h : GroupShape view gen group)
    (hview : view' group.manifestKey = view group.manifestKey) : GroupShape view' gen group :=
  ⟨h.1, fun art hmem => h.2 art (groupArtifacts_congr hview ▸ hmem)⟩

/-- A well-formed root stays so in every view that agrees on what it reaches. -/
theorem RootOk.congr (h : RootOk C view rootKey root)
    (hview : ∀ key ∈ reachedKeys view root.pages, view' key = view key) :
    RootOk C view' rootKey root where
  intact := h.intact.congr hview
  rootKey_shape := h.rootKey_shape
  page_shape := h.page_shape
  group_shape group hmem := by
    rw [catalogGroups_congr_reached hview] at hmem
    exact (h.group_shape group hmem).congr
      (hview _ (groupKeys_subset_reachedKeys hmem manifestKey_mem_groupKeys))
  ordered := by rw [catalogGroups_congr_reached hview]; exact h.ordered
  retired_shape := h.retired_shape
  retired_unselected := h.retired_unselected
  retired_unreached rets hmem := by
    rw [reachedKeys_congr hview]
    exact h.retired_unreached rets hmem

/-- Everything a root reaches lies below a transaction up to its generation. -/
theorem RootOk.reached_shape (h : RootOk C view rootKey root)
    (hkey : key ∈ reachedKeys view root.pages) :
    ∃ tx path, key = .object tx path ∧ tx.generation ≤ root.generation := by
  rcases mem_reachedKeys.mp hkey with ⟨ref, hmem, rfl⟩ | ⟨group, hmem, hkey⟩
  · obtain ⟨tx, digest, hkey, hle⟩ := h.page_shape ref hmem
    exact ⟨tx, _, hkey, hle⟩
  · obtain ⟨⟨tx, digest, hman, hle⟩, hartifacts⟩ := h.group_shape group hmem
    rcases mem_groupKeys.mp hkey with rfl | ⟨art, hmem, rfl⟩
    · exact ⟨tx, _, hman, hle⟩
    · obtain ⟨tx, label, digest, hkey, hle⟩ := hartifacts art hmem
      exact ⟨tx, _, hkey, hle⟩

/-- An intact root reaches only keys that are present. -/
theorem PagesIntact.present (h : PagesIntact C view pages) (hkey : key ∈ reachedKeys view pages) :
    view key ≠ none := by
  rcases mem_reachedKeys.mp hkey with ⟨ref, hmem, rfl⟩ | ⟨group, hmem, hkey⟩
  · obtain ⟨page, ⟨hpage, -⟩, -⟩ := h ref hmem
    simp [hpage]
  · obtain ⟨ref, href, hgroup⟩ := mem_catalogGroups.mp hmem
    obtain ⟨page, ⟨hpage, -⟩, hgroups⟩ := h ref href
    rw [pageGroups_of_page hpage] at hgroup
    obtain ⟨mf, ⟨hman, -⟩, hartifacts⟩ := hgroups group hgroup
    rcases mem_groupKeys.mp hkey with rfl | ⟨art, hmem, rfl⟩
    · simp [hman]
    · rw [groupArtifacts_of_manifest hman] at hmem
      obtain ⟨data, hcont, -⟩ := hartifacts art hmem
      simp [hcont]

end Congr

end ShardTelemetry.Tier
