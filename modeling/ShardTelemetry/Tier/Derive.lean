import ShardTelemetry.Tier.Reach

/-!
# A publication derives the next root from the current one

`Derives` is the contract between preparing a publication and committing it: what a prepared
publication says about the root it replaces, in a view of the store.  Publishing and retiring groups
meet it.  It has two consequences, whatever happens to the store in between.

* Once the uploads are stored and what the old root reaches is still there, the next root is
  well formed (`Derives.rootOk`).
* No key is lost: what the old root selected, reached or had retired is reached or retired by the
  next one (`Derives.accounts`), and the next root reaches every upload (`Derives.upload_reached`).
-/

namespace ShardTelemetry.Tier

open List

variable {β : Type}

/-- The keys of retired objects. -/
abbrev retiredKeys (retired : List RetiredObject) : List Key := retired.map (·.objectKey)

section Definitions

variable (C : Codec β) (view : View β)

/-- An upload has been stored: its bytes, or a file with the expected length and digest. -/
def Upload.Stored (upload : Upload β) : Prop :=
  match upload.body with
  | .bytes object => view upload.key = some object
  | .file _ => ∃ contents, Recorded C view upload.key upload.expected.bytes
      upload.expected.contentDigest (.artifact contents)

/-- A page reference names a page that is uploaded below the transaction. -/
structure FreshPage (transaction : TransactionId) (uploads : List (Upload β))
    (reference : CatalogPageRef) (page : CatalogPage) : Prop where
  uploaded : ∃ upload ∈ uploads, upload.key = reference.pageKey ∧ upload.body = .bytes (.page page)
  key : ∃ digest, reference.pageKey = .object transaction (.page reference.pageSequence digest)
  bytes : C.size (.page page) = reference.pageBytes
  checksum : C.digest (.page page) = reference.pageChecksum

/-- A group entry names a manifest that is uploaded below the transaction with its artifacts. -/
structure FreshGroup (transaction : TransactionId) (uploads : List (Upload β))
    (entry : CatalogGroupEntry) (manifest : TierGroupManifest) : Prop where
  uploaded :
    ∃ upload ∈ uploads, upload.key = entry.manifestKey ∧ upload.body = .bytes (.manifest manifest)
  key : ∃ digest, entry.manifestKey = .object transaction (.manifest entry.groupSequence digest)
  bytes : C.size (.manifest manifest) = entry.manifestBytes
  checksum : C.digest (.manifest manifest) = entry.manifestChecksum
  artifacts : ∀ artifact ∈ manifest.artifacts, ∃ upload ∈ uploads,
    upload.key = artifact.objectKey ∧ (∃ path, upload.body = .file path) ∧
      upload.expected.bytes = artifact.bytes ∧
      upload.expected.contentDigest = artifact.checksum ∧
      ∃ label digest, artifact.objectKey = .object transaction
        (.artifact entry.groupSequence label digest)

/-- A list of page references holds a list of groups in order: each reference is one of the old
pages or names a page that is uploaded. -/
inductive Arranged (transaction : TransactionId) (uploads : List (Upload β))
    (oldPages : List CatalogPageRef) : List CatalogPageRef → List CatalogGroupEntry → Prop where
  | nil : Arranged transaction uploads oldPages [] []
  | kept {reference : CatalogPageRef} {references : List CatalogPageRef}
      {groups : List CatalogGroupEntry} (hmem : reference ∈ oldPages)
      (hrest : Arranged transaction uploads oldPages references groups) :
      Arranged transaction uploads oldPages (reference :: references)
        (pageGroups view reference ++ groups)
  | fresh {reference : CatalogPageRef} {page : CatalogPage} {references : List CatalogPageRef}
      {groups : List CatalogGroupEntry} (hpage : FreshPage C transaction uploads reference page)
      (hrest : Arranged transaction uploads oldPages references groups) :
      Arranged transaction uploads oldPages (reference :: references) (page.groups ++ groups)

/-- A publication derives its root, which holds `nextGroups`, from the root of the tier. -/
structure Derives (tier : TelemetryObjectTier) (publication : Publication β)
    (nextGroups : List CatalogGroupEntry) : Prop where
  generation : publication.nextRoot.generation = tier.root.generation + 1
  valid : publication.nextRoot.validate tier.space = .ok ()
  transaction_generation :
    publication.transaction.transactionId.generation = tier.root.generation + 1
  target_generation : publication.transaction.targetGeneration = tier.root.generation + 1
  target_key : publication.transaction.targetRootKey = publication.pointer.rootKey
  owned : publication.transaction.ownedObjects = publication.uploads.map (·.key)
  pointer_key : ∃ digest, publication.pointer.rootKey =
    .object publication.transaction.transactionId (.root publication.nextRoot.generation digest)
  pointer_generation : publication.pointer.generation = publication.nextRoot.generation
  pointer_bytes : C.size (.root publication.nextRoot) = publication.pointer.rootBytes
  pointer_checksum : C.digest (.root publication.nextRoot) = publication.pointer.rootChecksum
  root_upload : ∃ upload ∈ publication.uploads,
    upload.key = publication.pointer.rootKey ∧ upload.body = .bytes (.root publication.nextRoot)
  arranged : Arranged C view publication.transaction.transactionId publication.uploads
    tier.root.pages publication.nextRoot.pages nextGroups
  groups : ∀ group ∈ nextGroups, group ∈ catalogGroups view tier.root.pages ∨ ∃ manifest,
    FreshGroup C publication.transaction.transactionId publication.uploads group manifest
  ordered : (catalogGroups view tier.root.pages).Pairwise (·.groupSequence < ·.groupSequence) →
    nextGroups.Pairwise (·.groupSequence < ·.groupSequence)
  retired : ∀ key, key ∈ retiredKeys publication.nextRoot.retiredObjects ↔
    key ∈ retiredKeys tier.root.retiredObjects ∨ key ∈ retiredKeys publication.newlyRetired
  newly_retired : ∀ key ∈ retiredKeys publication.newlyRetired,
    tier.currentRootKey = some key ∨ (∃ reference ∈ tier.root.pages, reference.pageKey = key) ∨
      ∃ group ∈ catalogGroups view tier.root.pages, group ∉ nextGroups ∧ key ∈ groupKeys view group
  relinquished_root :
    ∀ key, tier.currentRootKey = some key → key ∈ retiredKeys publication.newlyRetired
  relinquished_page : ∀ reference ∈ tier.root.pages, reference ∈ publication.nextRoot.pages ∨
    reference.pageKey ∈ retiredKeys publication.newlyRetired
  relinquished_group : ∀ group ∈ catalogGroups view tier.root.pages, group ∈ nextGroups ∨
    ∀ key ∈ groupKeys view group, key ∈ retiredKeys publication.newlyRetired
  uploads : ∀ upload ∈ publication.uploads, upload.key = publication.pointer.rootKey ∨
    (∃ reference ∈ publication.nextRoot.pages, reference.pageKey = upload.key) ∨
    ∃ group ∈ nextGroups, ∃ manifest,
      FreshGroup C publication.transaction.transactionId publication.uploads group manifest ∧
        (upload.key = group.manifestKey ∨
          ∃ artifact ∈ manifest.artifacts, artifact.objectKey = upload.key)

end Definitions

section Stored

variable {C : Codec β} {view : View β} {ups : List (Upload β)}

theorem FreshPage.stored (h : FreshPage C tx ups ref page) (hput : ∀ up ∈ ups, up.Stored C view) :
    view ref.pageKey = some (.page page) := by
  obtain ⟨up, hmem, hkey, hbody⟩ := h.uploaded
  have h := hput up hmem
  rw [Upload.Stored, hbody, hkey] at h
  exact h

section

variable (h : FreshGroup C tx ups entry mf) (hput : ∀ up ∈ ups, up.Stored C view)
include h hput

theorem FreshGroup.stored : view entry.manifestKey = some (.manifest mf) := by
  obtain ⟨up, hmem, hkey, hbody⟩ := h.uploaded
  have h := hput up hmem
  rw [Upload.Stored, hbody, hkey] at h
  exact h

theorem FreshGroup.intact : GroupIntact C view entry := by
  refine ⟨mf, ⟨h.stored hput, h.bytes, h.checksum⟩, fun art hmem => ?_⟩
  obtain ⟨up, hupload, hkey, ⟨path, hbody⟩, hbytes, hchecksum, -⟩ := h.artifacts art hmem
  have h := hput up hupload
  rw [Upload.Stored, hbody, hkey, hbytes, hchecksum] at h
  exact h

theorem FreshGroup.shape : GroupShape view tx.generation entry := by
  refine ⟨?_, fun art hmem => ?_⟩
  · obtain ⟨digest, hkey⟩ := h.key
    exact ⟨tx, digest, hkey, le_rfl⟩
  · rw [groupArtifacts_of_manifest (h.stored hput)] at hmem
    obtain ⟨-, -, -, -, -, -, label, digest, hkey⟩ := h.artifacts art hmem
    exact ⟨tx, label, digest, hkey, le_rfl⟩

end

theorem FreshGroup.keys {key : Key} (h : FreshGroup C tx ups entry mf)
    (hput : ∀ up ∈ ups, up.Stored C view) (hkey : key ∈ groupKeys view entry) :
    ∃ path, key = .object tx path := by
  rcases mem_groupKeys.mp hkey with rfl | ⟨art, hmem, rfl⟩
  · obtain ⟨digest, hkey⟩ := h.key
    exact ⟨_, hkey⟩
  · rw [groupArtifacts_of_manifest (h.stored hput)] at hmem
    obtain ⟨-, -, -, -, -, -, label, digest, hkey⟩ := h.artifacts art hmem
    exact ⟨_, hkey⟩

end Stored

section Arranged

variable {C : Codec β} {view : View β} {ups : List (Upload β)}

section

variable (h : Arranged C view tx ups oldPages pages groups)
include h

/-- Each arranged page is an old one or a fresh one whose groups are all arranged. -/
theorem Arranged.page (hmem : ref ∈ pages) :
    ref ∈ oldPages ∨ ∃ page, FreshPage C tx ups ref page ∧
      ∀ group ∈ page.groups, group ∈ groups := by
  induction h with
  | nil => simp at hmem
  | kept hold hrest ih =>
    rcases mem_cons.mp hmem with rfl | hmem
    · exact .inl hold
    · refine (ih hmem).imp_right fun ⟨page, hpage, hgroups⟩ => ⟨page, hpage, fun group hgroup => ?_⟩
      exact mem_append_right _ (hgroups group hgroup)
  | @fresh _ page _ _ hpage hrest ih =>
    rcases mem_cons.mp hmem with rfl | hmem
    · exact .inr ⟨page, hpage, fun group hgroup => mem_append_left _ hgroup⟩
    · refine (ih hmem).imp_right fun ⟨page, hpage, hgroups⟩ => ⟨page, hpage, fun group hgroup => ?_⟩
      exact mem_append_right _ (hgroups group hgroup)

/-- Once the uploads are stored and the old pages are still there, the arranged pages hold the
arranged groups. -/
theorem Arranged.catalogGroups_eq (hput : ∀ up ∈ ups, up.Stored C view')
    (hkept : ∀ ref ∈ oldPages, view' ref.pageKey = view ref.pageKey) :
    catalogGroups view' pages = groups := by
  induction h with
  | nil => rfl
  | kept hold hrest ih => rw [catalogGroups_cons, ih, pageGroups_congr (hkept _ hold)]
  | fresh hpage hrest ih => rw [catalogGroups_cons, ih, pageGroups_of_page (hpage.stored hput)]

end

end Arranged

/-- Along a strictly ordered catalog a group is determined by its sequence. -/
theorem eq_of_groupSequence_eq {groups : List CatalogGroupEntry}
    (hordered : groups.Pairwise (·.groupSequence < ·.groupSequence)) (hmem : group ∈ groups)
    (hmem' : group' ∈ groups) (heq : group.groupSequence = group'.groupSequence) :
    group = group' := by
  induction groups with
  | nil => simp at hmem
  | cons head rest ih =>
    obtain ⟨hhead, hrest⟩ := pairwise_cons.mp hordered
    rcases mem_cons.mp hmem with rfl | hin <;> rcases mem_cons.mp hmem' with rfl | hin'
    · rfl
    · exact absurd heq (Nat.ne_of_lt (hhead _ hin'))
    · exact absurd heq.symm (Nat.ne_of_lt (hhead _ hin))
    · exact ih hrest hin hin'

/-- Two groups of one shape that share a key share their sequence. -/
theorem GroupShape.groupSequence_eq {view : View β} (h : GroupShape view gen group)
    (h' : GroupShape view generation' group') (hkey : key ∈ groupKeys view group)
    (hkey' : key ∈ groupKeys view group') : group.groupSequence = group'.groupSequence := by
  obtain ⟨⟨t₁, d₁, hm, -⟩, ha⟩ := h
  obtain ⟨⟨t₂, d₂, hm', -⟩, ha'⟩ := h'
  rcases mem_groupKeys.mp hkey with rfl | ⟨art, hmem, rfl⟩ <;>
    rcases mem_groupKeys.mp hkey' with heq | ⟨artifact', hmem', heq⟩
  · rw [hm, hm'] at heq
    injection heq with _ path
    injection path
  · obtain ⟨t₃, l₃, d₃, hk, -⟩ := ha' artifact' hmem'
    rw [hk, hm] at heq
    simp at heq
  · obtain ⟨t₃, l₃, d₃, hk, -⟩ := ha art hmem
    rw [hk, hm'] at heq
    simp at heq
  · obtain ⟨t₃, l₃, d₃, hk, -⟩ := ha art hmem
    obtain ⟨t₄, l₄, d₄, hk', -⟩ := ha' artifact' hmem'
    rw [hk, hk'] at heq
    injection heq with _ path
    injection path with same
    exact same.symm

/-- The keys of a group are keys of manifests and artifacts, never of pages or roots. -/
theorem GroupShape.not_page_or_root {view : View β} (h : GroupShape view gen group)
    (hkey : key ∈ groupKeys view group) :
    (∀ tx sequence digest, key ≠ .object tx (.page sequence digest)) ∧
      ∀ tx sequence digest, key ≠ .object tx (.root sequence digest) := by
  obtain ⟨⟨t, d, hm, -⟩, ha⟩ := h
  rcases mem_groupKeys.mp hkey with rfl | ⟨art, hmem, rfl⟩
  · simp [hm]
  · obtain ⟨t', l, d', hk, -⟩ := ha art hmem
    simp [hk]

section Consequences

variable {C : Codec β} {view view' : View β} {pub : Publication β}

/-- Once the uploads are stored and the old root's reach is still there, the next root's pages hold
the derived groups. -/
theorem Derives.catalogGroups_eq (h : Derives C view tier pub nextGroups)
    (hput : ∀ up ∈ pub.uploads, up.Stored C view')
    (hkept : ∀ key ∈ reachedKeys view tier.root.pages, view' key = view key) :
    catalogGroups view' pub.nextRoot.pages = nextGroups :=
  h.arranged.catalogGroups_eq hput fun _ hmem => hkept _ (pageKey_mem_reachedKeys hmem)

/-- A newly retired key is the old root's or reached by it. -/
theorem Derives.newly_retired_used (h : Derives C view tier pub nextGroups)
    (hkey : key ∈ retiredKeys pub.newlyRetired) :
    tier.currentRootKey = some key ∨ key ∈ reachedKeys view tier.root.pages := by
  rcases h.newly_retired key hkey with hroot | ⟨ref, hmem, rfl⟩ | ⟨group, hmem, -, hgroup⟩
  · exact .inl hroot
  · exact .inr (pageKey_mem_reachedKeys hmem)
  · exact .inr (groupKeys_subset_reachedKeys hmem hgroup)

/-- A key retired by the next root is a key of the old one, so it predates the transaction. -/
theorem Derives.retired_old (h : Derives C view tier pub nextGroups)
    (hok : RootOk C view tier.currentRootKey tier.root)
    (hkey : key ∈ retiredKeys pub.nextRoot.retiredObjects) :
    ∃ tx path, key = .object tx path ∧ tx.generation ≤ tier.root.generation := by
  rcases (h.retired key).mp hkey with hold | hnew
  · obtain ⟨rets, hmem, rfl⟩ := mem_map.mp hold
    exact hok.retired_shape rets hmem
  · rcases h.newly_retired key hnew with hroot | ⟨ref, hmem, rfl⟩ | ⟨group, hmem, -, hkey⟩
    · obtain ⟨tx, digest, hkey, heq⟩ := hok.rootKey_shape key hroot
      exact ⟨tx, _, hkey, heq.le⟩
    · exact hok.reached_shape (pageKey_mem_reachedKeys hmem)
    · exact hok.reached_shape (groupKeys_subset_reachedKeys hmem hkey)

section

variable (h : Derives C view tier pub nextGroups)
  (hok : RootOk C view tier.currentRootKey tier.root) (hput : ∀ up ∈ pub.uploads, up.Stored C view')
  (hkept : ∀ key ∈ reachedKeys view tier.root.pages, view' key = view key)
include h hok hput hkept

/-- No group of the next root has a retired key. -/
theorem Derives.group_unretired {group : CatalogGroupEntry} (hgroup : group ∈ nextGroups)
    (hkey : key ∈ groupKeys view' group) : key ∉ retiredKeys pub.nextRoot.retiredObjects := by
  intro hret
  rcases h.groups group hgroup with hold | ⟨mf, hfresh⟩
  · have hshape := hok.group_shape group hold
    rw [groupKeys_congr (hkept _ (groupKeys_subset_reachedKeys hold manifestKey_mem_groupKeys))]
      at hkey
    rcases (h.retired key).mp hret with hbefore | hnew
    · obtain ⟨rets, hmem, rfl⟩ := mem_map.mp hbefore
      exact hok.retired_unreached rets hmem (groupKeys_subset_reachedKeys hold hkey)
    · obtain ⟨hnotpage, hnotroot⟩ := hshape.not_page_or_root hkey
      rcases h.newly_retired key hnew with hroot | ⟨ref, hmem, rfl⟩ | ⟨group', hmem, hgone, hkey'⟩
      · obtain ⟨tx, digest, hroot, -⟩ := hok.rootKey_shape key hroot
        exact hnotroot _ _ _ hroot
      · obtain ⟨tx, digest, hpage, -⟩ := hok.page_shape ref hmem
        exact hnotpage _ _ _ hpage
      · -- a group that was given up shares no key with a group that stayed
        have hseq := hshape.groupSequence_eq (hok.group_shape group' hmem) hkey hkey'
        exact hgone (eq_of_groupSequence_eq hok.ordered hold hmem hseq ▸ hgroup)
  · obtain ⟨path, rfl⟩ := hfresh.keys hput hkey
    obtain ⟨tx, path', heq, hle⟩ := h.retired_old hok hret
    obtain ⟨rfl, -⟩ := Key.object.inj heq
    have := h.transaction_generation
    omega

/-- The next root is well formed once its uploads are stored and what the old root reaches is still
there. -/
theorem Derives.rootOk : RootOk C view' (some pub.pointer.rootKey) pub.nextRoot := by
  have hgroups := h.catalogGroups_eq hput hkept
  have hok' := hok.congr hkept
  have hgen := h.generation
  have htx := h.transaction_generation
  have hgroupIntact : ∀ group ∈ nextGroups, GroupIntact C view' group := by
    intro group hgroup
    rcases h.groups group hgroup with hold | ⟨mf, hfresh⟩
    · rw [← catalogGroups_congr_reached hkept] at hold
      obtain ⟨ref, hmem, hin⟩ := mem_catalogGroups.mp hold
      obtain ⟨page, ⟨hpage, -⟩, hall⟩ := hok'.intact ref hmem
      exact hall group (pageGroups_of_page hpage ▸ hin)
    · exact hfresh.intact hput
  refine ⟨?intact, ?rootKey, ?page, ?group, ?ordered, ?retiredShape, ?unselected, ?unreached⟩
  case intact =>
    intro ref hmem
    rcases h.arranged.page hmem with hold | ⟨page, hfresh, hall⟩
    · exact hok'.intact ref hold
    · exact ⟨page, ⟨hfresh.stored hput, hfresh.bytes, hfresh.checksum⟩,
        fun group hgroup => hgroupIntact group (hall group hgroup)⟩
  case rootKey =>
    rintro key hkey
    cases hkey
    obtain ⟨digest, hptr⟩ := h.pointer_key
    exact ⟨_, digest, hptr, by omega⟩
  case page =>
    intro ref hmem
    rcases h.arranged.page hmem with hold | ⟨page, hfresh, -⟩
    · obtain ⟨tx, digest, hkey, hle⟩ := hok.page_shape ref hold
      exact ⟨tx, digest, hkey, by omega⟩
    · obtain ⟨digest, hkey⟩ := hfresh.key
      exact ⟨_, digest, hkey, by omega⟩
  case group =>
    rw [hgroups]
    intro group hgroup
    rcases h.groups group hgroup with hold | ⟨mf, hfresh⟩
    · rw [← catalogGroups_congr_reached hkept] at hold
      obtain ⟨⟨t, d, hm, hle⟩, ha⟩ := hok'.group_shape group hold
      refine ⟨⟨t, d, hm, by omega⟩, fun art hmem => ?_⟩
      obtain ⟨t', l, d', hk, hle'⟩ := ha art hmem
      exact ⟨t', l, d', hk, by omega⟩
    · have hshape := hfresh.shape hput
      rwa [htx, ← hgen] at hshape
  case ordered => rw [hgroups]; exact h.ordered hok.ordered
  case retiredShape =>
    intro rets hmem
    obtain ⟨tx, path, hkey, hle⟩ := h.retired_old hok (mem_map_of_mem hmem)
    exact ⟨tx, path, hkey, by omega⟩
  case unselected =>
    intro rets hmem heq
    obtain ⟨tx, path, hkey, hle⟩ := h.retired_old hok (mem_map_of_mem hmem)
    obtain ⟨digest, hptr⟩ := h.pointer_key
    rw [← Option.some.inj heq, hptr] at hkey
    obtain ⟨rfl, -⟩ := Key.object.inj hkey
    omega
  case unreached =>
    intro rets hmem hreach
    rcases mem_reachedKeys.mp hreach with ⟨ref, href, heq⟩ | ⟨group, hgroup, hkey⟩
    · exact (validateRetired_spec (CatalogRoot.validate_retired h.valid) hmem).2 ref href heq
    · rw [hgroups] at hgroup
      exact h.group_unretired hok hput hkept hgroup hkey (mem_map_of_mem hmem)

end

section

variable (h : Derives C view tier pub nextGroups) (hput : ∀ up ∈ pub.uploads, up.Stored C view')
  (hkept : ∀ key ∈ reachedKeys view tier.root.pages, view' key = view key)
include h hput hkept

/-- Nothing is lost: what the old root selected, reached or had retired is reached or retired by the
next root. -/
theorem Derives.accounts (hkey : tier.currentRootKey = some key ∨
      key ∈ reachedKeys view tier.root.pages ∨ key ∈ retiredKeys tier.root.retiredObjects) :
    key ∈ reachedKeys view' pub.nextRoot.pages ∨ key ∈ retiredKeys pub.nextRoot.retiredObjects := by
  rcases hkey with hroot | hreach | hret
  · exact .inr ((h.retired key).mpr (.inr (h.relinquished_root key hroot)))
  · rcases mem_reachedKeys.mp hreach with ⟨ref, hmem, rfl⟩ | ⟨group, hmem, hkey⟩
    · rcases h.relinquished_page ref hmem with hnext | hgone
      · exact .inl (pageKey_mem_reachedKeys hnext)
      · exact .inr ((h.retired _).mpr (.inr hgone))
    · rcases h.relinquished_group group hmem with hnext | hgone
      · rw [← h.catalogGroups_eq hput hkept] at hnext
        refine .inl (groupKeys_subset_reachedKeys hnext ?_)
        rwa [groupKeys_congr
          (hkept _ (groupKeys_subset_reachedKeys hmem manifestKey_mem_groupKeys))]
      · exact .inr ((h.retired _).mpr (.inr (hgone key hkey)))
  · exact .inr ((h.retired key).mpr (.inl hret))

/-- The next root is or reaches every upload. -/
theorem Derives.upload_reached (hmem : up ∈ pub.uploads) :
    up.key = pub.pointer.rootKey ∨ up.key ∈ reachedKeys view' pub.nextRoot.pages := by
  rcases h.uploads up hmem with hroot | ⟨ref, href, hkey⟩ | ⟨group, hgroup, mf, hfresh, hkey⟩
  · exact .inl hroot
  · exact .inr (hkey ▸ pageKey_mem_reachedKeys href)
  · rw [← h.catalogGroups_eq hput hkept] at hgroup
    refine .inr (groupKeys_subset_reachedKeys hgroup ?_)
    rcases hkey with hkey | ⟨art, hartifact, hkey⟩
    · exact hkey ▸ manifestKey_mem_groupKeys
    · rw [← hkey]
      refine artifactKey_mem_groupKeys ?_
      rwa [groupArtifacts_of_manifest (hfresh.stored hput)]

/-- What the next root reaches was reached before or is uploaded. -/
theorem Derives.reached_cases (hkey : key ∈ reachedKeys view' pub.nextRoot.pages) :
    key ∈ reachedKeys view tier.root.pages ∨ ∃ up ∈ pub.uploads, up.key = key := by
  rcases mem_reachedKeys.mp hkey with ⟨ref, hmem, rfl⟩ | ⟨group, hmem, hgroup⟩
  · rcases h.arranged.page hmem with hold | ⟨page, hfresh, -⟩
    · exact .inl (pageKey_mem_reachedKeys hold)
    · obtain ⟨up, hupload, hkey, -⟩ := hfresh.uploaded
      exact .inr ⟨up, hupload, hkey⟩
  · rw [h.catalogGroups_eq hput hkept] at hmem
    rcases h.groups group hmem with hold | ⟨mf, hfresh⟩
    · have hman := groupKeys_subset_reachedKeys hold manifestKey_mem_groupKeys
      rw [groupKeys_congr (hkept _ hman)] at hgroup
      exact .inl (groupKeys_subset_reachedKeys hold hgroup)
    · rcases mem_groupKeys.mp hgroup with rfl | ⟨art, hartifact, rfl⟩
      · obtain ⟨up, hupload, hkey, -⟩ := hfresh.uploaded
        exact .inr ⟨up, hupload, hkey⟩
      · rw [groupArtifacts_of_manifest (hfresh.stored hput)] at hartifact
        obtain ⟨up, hupload, hkey, -⟩ := hfresh.artifacts art hartifact
        exact .inr ⟨up, hupload, hkey⟩

end

end Consequences

end ShardTelemetry.Tier
