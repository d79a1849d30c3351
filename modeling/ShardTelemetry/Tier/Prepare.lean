import ShardTelemetry.Tier.Derive

/-!
# Preparing a publication

Before a transaction begins, `publish_group` and `retain_since_timestamp` only read: pages and
manifests of the current root, local files, the clock and a transaction identity.  What they prepare
derives from the root (`Derives`).

The proofs do not depend on who else acts on the store.  `Reading` lists what they need: an
invariant that the reads keep, and a fixed view with everything that is read below the current root.
-/

namespace ShardTelemetry.Tier

open List Cmd CatalogPageRef CatalogGroupEntry

variable {β S : Type}

/-- The rules let a program read: the invariant `I` is kept, the objects read under `keys` are those
of the view, and drawing an identity moves from the index `none` to that identity. -/
structure Reading (P : Rules (Effect β) Response S) (I : Option Identity → S → Prop)
    (view : View β) (keys : Key → Prop) : Prop where
  rely : ∀ phase s s', I phase s → P.rely s s' → I phase s'
  get : ∀ {phase s s' key maxBytes r}, I phase s → P.step (.get key maxBytes) s r s' →
    P.guar s s' ∧ I phase s' ∧ (keys key → ∀ object, r = .ok object → view key = some object)
  hashFile : ∀ {phase s s' path r}, I phase s → P.step (.hashFile path) s r s' →
    P.guar s s' ∧ I phase s'
  unixTimeMillis : ∀ {phase s s' r}, I phase s → P.step .unixTimeMillis s r s' →
    P.guar s s' ∧ I phase s'
  identity : ∀ {s s' r}, I none s → P.step .identity s r s' → P.guar s s' ∧ I (some r) s'

/-! ## Retired keys -/

variable {retired : List RetiredObject}

theorem mem_insertRetired : other ∈ insertRetired entry retired ↔
    other = entry ∨ other ∈ retired := by
  induction retired with
  | nil => simp [insertRetired]
  | cons head rest ih =>
    unfold insertRetired
    split
    · simp
    · simp [ih, or_left_comm]

theorem mem_sortRetired : other ∈ retired.foldr insertRetired [] ↔ other ∈ retired := by
  induction retired with
  | nil => simp
  | cons head rest ih => simp [mem_insertRetired, ih]

theorem mem_retiredKeys_dedupAfter {prev : RetiredObject} :
    key = prev.objectKey ∨ key ∈ retiredKeys (dedupAfter prev retired) ↔
      key = prev.objectKey ∨ key ∈ retiredKeys retired := by
  induction retired generalizing prev with
  | nil => rfl
  | cons entry rest ih =>
    unfold dedupAfter
    split
    · next heq => rw [ih]; simp [heq]
    · have := @ih entry
      simp only [retiredKeys, map_cons, mem_cons] at this ⊢
      rw [this]

theorem mem_retiredKeys_dedup : key ∈ retiredKeys (dedupRetired retired) ↔
    key ∈ retiredKeys retired := by
  cases retired with
  | nil => rfl
  | cons entry rest =>
    have h := @mem_retiredKeys_dedupAfter rest key entry
    simpa [dedupRetired] using h

/-- Retiring keys adds them and loses none. -/
theorem mem_retiredKeys_retire :
    key ∈ retiredKeys (retire retired newly) ↔
      key ∈ retiredKeys retired ∨ key ∈ retiredKeys newly := by
  unfold retire
  rw [mem_retiredKeys_dedup]
  simp only [retiredKeys, mem_map, mem_sortRetired, mem_append, or_and_right, exists_or]

/-! ## Reading pages and manifests -/

section Load

variable {P : Rules (Effect β) Response S} {I : Option Identity → S → Prop} {view : View β}
  {tier : TelemetryObjectTier}

theorem decodePage_spec (h : decodePage C tier reference obj = .ok page) :
    obj = .page page ∧ page.validate tier.space tier.config.groupsPerPage = .ok () ∧
      page.pageSequence = reference.pageSequence := by
  simp only [decodePage, decodeJson, bind_eq_ok, okOr_eq_ok, ensure_eq_ok, decide_eq_true_eq] at h
  obtain ⟨_, -, page', hpage, _, hvalid, _, hseq, heq⟩ := h
  cases heq
  refine ⟨?_, hvalid, hseq⟩
  cases obj <;> simp_all [Object.page?]

theorem decodeGroup_spec (h : decodeGroup C tier entry obj = .ok mf) : obj = .manifest mf := by
  simp only [decodeGroup, decodeJson, bind_eq_ok, okOr_eq_ok, ensure_eq_ok] at h
  obtain ⟨_, -, manifest', hman, _, -, _, -, heq⟩ := h
  cases heq
  cases obj <;> simp_all [Object.manifest?]

theorem getObject_keeps {keys : Key → Prop} (hP : Reading P I view keys) (hkey : keys key) :
    KeepsAt P I tier phase (getObject key cap : TierM β _) fun obj => view key = some obj := by
  refine KeepsAt.attempt hP.rely fun s r s' hs hstep => ?_
  obtain ⟨hg, hs', hobj⟩ := hP.get hs hstep
  exact ⟨hg, hs', fun obj heq => hobj hkey obj heq⟩

variable (hP : Reading P I view (· ∈ reachedKeys view tier.root.pages))

include hP

theorem loadPage_keeps (hmem : reference ∈ tier.root.pages) :
    KeepsAt P I tier phase (loadPage C reference) fun page =>
      view reference.pageKey = some (.page page) ∧
      page.validate tier.space tier.config.groupsPerPage = .ok () ∧
      page.pageSequence = reference.pageSequence := by
  refine Keeps.get_bind (Keeps.ofExcept_bind hP.rely fun _ _ => ?_)
  refine (getObject_keeps hP (pageKey_mem_reachedKeys hmem)).bind fun obj hobj => ?_
  refine KeepsAt.ofExcept hP.rely fun page hpage => ?_
  obtain ⟨rfl, hvalid, hseq⟩ := decodePage_spec hpage
  exact ⟨hobj, hvalid, hseq⟩

theorem loadGroup_keeps (hmem : group ∈ catalogGroups view tier.root.pages) :
    KeepsAt P I tier phase (loadGroup C group) fun mf =>
      view group.manifestKey = some (.manifest mf) := by
  refine Keeps.get_bind (Keeps.ofExcept_bind hP.rely fun _ _ => ?_)
  have hkey := groupKeys_subset_reachedKeys hmem manifestKey_mem_groupKeys
  refine (getObject_keeps hP hkey).bind fun obj hobj => ?_
  refine KeepsAt.ofExcept hP.rely fun mf hman => ?_
  obtain rfl := decodeGroup_spec hman
  exact hobj

end Load

/-! ## Publishing a group -/

/-- An upload stores the file a manifest lists as this artifact. -/
def ArtifactUpload (transaction : TransactionId) (groupSequence : Nat) (artifact : TierArtifact)
    (upload : Upload β) : Prop :=
  upload.key = artifact.objectKey ∧ (∃ path, upload.body = .file path) ∧
    upload.expected.bytes = artifact.bytes ∧ upload.expected.contentDigest = artifact.checksum ∧
    ∃ label digest, artifact.objectKey = .object transaction (.artifact groupSequence label digest)

/-- The page that takes a new group holds it alone, or behind the groups of the last page. -/
def Takes (view : View β) (pages : List CatalogPageRef) (entry : CatalogGroupEntry)
    (page : CatalogPage) (replaceLast : Bool) : Prop :=
  (replaceLast = true ∧ ∃ lastRef, pages.getLast? = some lastRef ∧
    page.groups = pageGroups view lastRef ++ [entry]) ∨
      (replaceLast = false ∧ page.groups = [entry])

section Publish

variable {P : Rules (Effect β) Response S} {I : Option Identity → S → Prop} {C : Codec β}
  {view : View β}
  {tier : TelemetryObjectTier} (hP : Reading P I view (· ∈ reachedKeys view tier.root.pages))

include hP

theorem unixTimeMillis_keeps :
    KeepsAt P I tier phase (unixTimeMillis : TierM β Nat) fun _ => True :=
  Keeps.perform hP.rely fun _ _ _ hs hstep =>
    let ⟨hg, hs'⟩ := hP.unixTimeMillis hs hstep
    ⟨hg, phase, hs', rfl, trivial⟩

theorem newTransactionId_keeps (generation) :
    Keeps P I tier none (newTransactionId generation : TierM β TransactionId)
      fun txId j => j = some txId.identity ∧ txId.generation = generation := by
  refine Keeps.bind (K := fun ident j => j = some ident) ?_ ?_
  · exact Keeps.perform hP.rely fun s r s' hs hstep =>
      let ⟨hg, hs'⟩ := hP.identity hs hstep
      ⟨hg, some r, hs', rfl⟩
  · rintro ident _ rfl
    exact Keeps.pure hP.rely ⟨rfl, rfl⟩

/-- The manifest entries and the uploads of a group's artifacts belong together. -/
theorem hashArtifacts_keeps (txId) (groupSequence) (sources) :
    KeepsAt P I tier phase (hashArtifacts txId groupSequence sources : TierM β _) fun res =>
        (∀ art ∈ res.1, ∃ up ∈ res.2, ArtifactUpload txId groupSequence art up) ∧
        ∀ up ∈ res.2, ∃ art ∈ res.1, art.objectKey = up.key := by
  induction sources with
  | nil => exact KeepsAt.pure hP.rely ⟨by simp, by simp⟩
  | cons source rest ih =>
    have hhash : KeepsAt P I tier phase (hashFile source.path : TierM β _) fun _ => True :=
      KeepsAt.attempt hP.rely fun s r s' hs hstep =>
        let ⟨hg, hs'⟩ := hP.hashFile hs hstep
        ⟨hg, hs', fun _ _ => trivial⟩
    refine hhash.bind fun md _ => ih.bind fun (artifacts, uploads) ⟨hleft, hright⟩ => ?_
    refine KeepsAt.pure hP.rely ⟨fun art hmem => ?_, fun up hmem => ?_⟩
    · rcases mem_cons.mp hmem with rfl | hmem
      · exact ⟨_, .head _, rfl, ⟨_, rfl⟩, rfl, rfl, _, _, rfl⟩
      · obtain ⟨up, hupload, hspec⟩ := hleft art hmem
        exact ⟨up, .tail _ hupload, hspec⟩
    · rcases mem_cons.mp hmem with rfl | hmem
      · exact ⟨_, .head _, rfl⟩
      · obtain ⟨art, hartifact, hspec⟩ := hright up hmem
        exact ⟨art, .tail _ hartifact, hspec⟩

/-- A group that may follow the last published one has a larger sequence. -/
theorem checkLastGroup_keeps (source) (mf) :
    KeepsAt P I tier phase (checkLastGroup C source mf tier.root.pages.getLast?)
      fun res => res = none → ∀ lastRef, tier.root.pages.getLast? = some lastRef →
        ∃ lastGroup, (pageGroups view lastRef).getLast? = some lastGroup ∧
          lastGroup.groupSequence < source.groupSequence := by
  cases hlast : tier.root.pages.getLast? with
  | none => exact KeepsAt.pure hP.rely nofun
  | some lastRef =>
    have hmem : lastRef ∈ tier.root.pages := mem_of_getLast? hlast
    refine (loadPage_keeps hP hmem).bind fun page ⟨hpage, hvalid, _⟩ => ?_
    cases hgroup : page.groups.getLast? with
    | none =>
      -- a page that passed validation is not empty
      rw [getLast?_eq_none_iff] at hgroup
      simp [CatalogPage.validate, hgroup, bind_eq_ok] at hvalid
    | some lastGroup =>
      have hin : lastGroup ∈ pageGroups view lastRef :=
        pageGroups_of_page hpage ▸ mem_of_getLast? hgroup
      dsimp only
      split
      · refine (loadGroup_keeps hP (mem_catalogGroups.mpr ⟨lastRef, hmem, hin⟩)).bind fun _ _ => ?_
        refine Keeps.ofExcept_bind hP.rely fun _ _ => ?_
        exact KeepsAt.pure hP.rely nofun
      · refine Keeps.ofExcept_bind hP.rely fun _ hlt => ?_
        refine Keeps.ofExcept_bind hP.rely fun _ _ => ?_
        refine KeepsAt.pure hP.rely fun _ ref href => ?_
        cases href
        exact ⟨lastGroup, by rw [pageGroups_of_page hpage, hgroup], by simpa using hlt⟩

theorem nextPage_keeps (entry) : KeepsAt P I tier phase (nextPage C entry tier.root.pages.getLast?)
      fun (page, replaceLast) => Takes view tier.root.pages entry page replaceLast := by
  unfold Takes
  cases hlast : tier.root.pages.getLast? with
  | none => exact Keeps.get_bind (KeepsAt.pure hP.rely (.inr ⟨rfl, rfl⟩))
  | some lastRef =>
    refine Keeps.get_bind ?_
    refine (loadPage_keeps hP (mem_of_getLast? hlast)).bind fun page ⟨hpage, _, _⟩ => ?_
    split
    · refine KeepsAt.pure hP.rely (.inl ⟨rfl, lastRef, rfl, ?_⟩)
      rw [pageGroups_of_page hpage]
    · refine Keeps.ofExcept_bind hP.rely fun _ _ => ?_
      exact KeepsAt.pure hP.rely (.inr ⟨rfl, rfl⟩)

/-- What every publication satisfies by construction. -/
structure Prepared (C : Codec β) (tier : TelemetryObjectTier) (transactionId : TransactionId)
    (uploads : List (Upload β)) (nextRoot : CatalogRoot) (newlyRetired : List RetiredObject)
    (publication : Publication β) : Prop where
  nextRoot_eq : publication.nextRoot = nextRoot
  newlyRetired_eq : publication.newlyRetired = newlyRetired
  transactionId_eq : publication.transaction.transactionId = transactionId
  uploads_eq : ∃ context, publication.uploads = uploads ++
    [⟨publication.pointer.rootKey, .bytes (.root nextRoot), C.metadata (.root nextRoot) 0, context⟩]
  valid : nextRoot.validate tier.space = .ok ()
  target_generation : publication.transaction.targetGeneration = nextRoot.generation
  target_key : publication.transaction.targetRootKey = publication.pointer.rootKey
  owned : publication.transaction.ownedObjects = publication.uploads.map (·.key)
  pointer_key : publication.pointer.rootKey =
    .object transactionId (.root nextRoot.generation (C.digest (.root nextRoot)))
  pointer_generation : publication.pointer.generation = nextRoot.generation
  pointer_bytes : publication.pointer.rootBytes = C.size (.root nextRoot)
  pointer_checksum : publication.pointer.rootChecksum = C.digest (.root nextRoot)

variable {uploads : List (Upload β)} {pub : Publication β}

theorem preparePublication_keeps :
    KeepsAt P I tier phase (preparePublication C tier txId uploads nextRoot newly context reason)
      (Prepared C tier txId uploads nextRoot newly) := by
  refine Keeps.ofExcept_bind hP.rely fun _ _ => ?_
  refine Keeps.ofExcept_bind hP.rely fun _ hvalid => ?_
  refine Keeps.ofExcept_bind hP.rely fun _ _ => ?_
  refine Keeps.ofExcept_bind hP.rely fun _ _ => ?_
  refine (unixTimeMillis_keeps hP).bind fun now _ => ?_
  exact KeepsAt.pure hP.rely ⟨rfl, rfl, rfl, ⟨context, rfl⟩, hvalid, rfl, rfl, rfl, rfl,
    rfl, rfl, rfl⟩

section

omit hP

section

variable (h : Prepared C tier txId uploads nextRoot newly pub)
include h

theorem Prepared.root_upload :
    ∃ up ∈ pub.uploads, up.key = pub.pointer.rootKey ∧ up.body = .bytes (.root pub.nextRoot) := by
  obtain ⟨context, huploads⟩ := h.uploads_eq
  rw [huploads, h.nextRoot_eq]
  exact ⟨_, mem_append_right _ mem_cons_self, rfl, rfl⟩

theorem Prepared.mem_uploads (hmem : up ∈ uploads) : up ∈ pub.uploads := by
  obtain ⟨context, huploads⟩ := h.uploads_eq
  exact huploads ▸ mem_append_left _ hmem

theorem Prepared.upload_cases (hmem : up ∈ pub.uploads) :
    up.key = pub.pointer.rootKey ∨ up ∈ uploads := by
  obtain ⟨context, huploads⟩ := h.uploads_eq
  rw [huploads] at hmem
  rcases mem_append.mp hmem with hmem | hmem
  · exact .inr hmem
  · rw [mem_singleton.mp hmem]
    exact .inl rfl

end

end

end Publish

/-- The next generation of a root that has one. -/
theorem nextGeneration_eq {next : Nat}
    (h : okOr error (checkedAdd generation 1) = .ok next) : next = generation + 1 :=
  (checkedAdd_eq_some.mp (okOr_eq_ok.mp h)).1

/-- What a catalog entry records about the manifest it is built from. -/
theorem CatalogGroupEntry.fromManifest_spec (h : fromManifest mf key md = .ok entry) :
    entry.groupSequence = mf.groupSequence ∧ entry.checkpoint = mf.checkpoint ∧
      entry.manifestKey = key ∧ entry.manifestBytes = md.bytes ∧
      entry.manifestChecksum = md.contentDigest := by
  simp only [fromManifest, bind_eq_ok] at h
  obtain ⟨_, -, _, -, _, -, _, -, _, -, _, -, heq⟩ := h
  cases heq
  exact ⟨rfl, rfl, rfl, rfl, rfl⟩

/-- What a page reference records about the page it is built from. -/
theorem CatalogPageRef.fromPage_spec (h : fromPage page key md = .ok reference) :
    reference.pageSequence = page.pageSequence ∧ reference.pageKey = key ∧
      reference.pageBytes = md.bytes ∧ reference.pageChecksum = md.contentDigest := by
  simp only [fromPage, bind_eq_ok] at h
  obtain ⟨_, -, _, -, _, -, heq⟩ := h
  cases heq
  exact ⟨rfl, rfl, rfl, rfl⟩

/-- A page uploaded with the reference built from it is fresh. -/
theorem FreshPage.of_controlUpload
    (hmem : controlUpload C txId (.page page.pageSequence) (.page page) context ∈ uploads)
    (href : fromPage page (controlUpload C txId (.page page.pageSequence) (.page page) context).key
      (controlUpload C txId (.page page.pageSequence) (.page page) context).expected =
        .ok reference) : FreshPage C txId uploads reference page := by
  obtain ⟨hseq, hkey, hbytes, hchecksum⟩ := fromPage_spec href
  exact ⟨⟨_, hmem, hkey.symm, rfl⟩, ⟨_, by rw [hkey, hseq]; rfl⟩, hbytes.symm, hchecksum.symm⟩

/-- Old pages followed by one fresh page. -/
theorem Arranged.append_fresh {page : CatalogPage}
    (hold : ∀ old ∈ references, old ∈ oldPages) (hpage : FreshPage C txId uploads reference page) :
    Arranged C view txId uploads oldPages (references ++ [reference])
      (catalogGroups view references ++ page.groups) := by
  induction references with
  | nil => simpa using Arranged.fresh hpage Arranged.nil
  | cons head rest ih =>
    rw [catalogGroups_cons, append_assoc]
    exact .kept (hold head (by simp)) (ih fun old hmem => hold old (by simp [hmem]))

section PrepareGroup

variable {P : Rules (Effect β) Response S} {I : Option Identity → S → Prop} {view : View β}
  {tier : TelemetryObjectTier}

/-- The new group behind a strictly ordered catalog keeps it so. -/
theorem ordered_append_entry {entry : CatalogGroupEntry}
    (hlast : ∀ lastRef, tier.root.pages.getLast? = some lastRef → ∃ lastGroup,
      (pageGroups view lastRef).getLast? = some lastGroup ∧
        lastGroup.groupSequence < entry.groupSequence)
    (hordered : (catalogGroups view tier.root.pages).Pairwise (·.groupSequence < ·.groupSequence)) :
    (catalogGroups view tier.root.pages ++ [entry]).Pairwise
      (·.groupSequence < ·.groupSequence) := by
  refine pairwise_append.mpr ⟨hordered, by simp, fun group hgroup other hother => ?_⟩
  rw [mem_singleton.mp hother]
  cases hpages : tier.root.pages.getLast? with
  | none =>
    rw [getLast?_eq_none_iff] at hpages
    simp [hpages] at hgroup
  | some lastRef =>
    obtain ⟨lastGroup, hlastGroup, hlt⟩ := hlast lastRef hpages
    obtain ⟨pages, hsplit⟩ := getLast?_eq_some_iff.mp hpages
    obtain ⟨groups, hgroups⟩ := getLast?_eq_some_iff.mp hlastGroup
    rw [hsplit, catalogGroups_append, catalogGroups_cons, catalogGroups_nil, append_nil, hgroups,
      ← append_assoc] at hgroup hordered
    rcases mem_append.mp hgroup with hgroup | hgroup
    · exact ((pairwise_append.mp hordered).2.2 group hgroup lastGroup (by simp)).trans hlt
    · rw [mem_singleton.mp hgroup]
      exact hlt

variable {page : CatalogPage}

/-- The groups of the page that takes a new group, behind those of the pages that stay. -/
theorem Takes.groups (hpage : Takes view pages entry page replaceLast) :
    catalogGroups view (if replaceLast then pages.dropLast else pages) ++ page.groups =
      catalogGroups view pages ++ [entry] := by
  rcases hpage with ⟨rfl, lastRef, hlast, hgroups⟩ | ⟨rfl, hgroups⟩
  · obtain ⟨pages, hsplit⟩ := getLast?_eq_some_iff.mp hlast
    simp [hsplit, hgroups]
  · simp [hgroups]

/-- The root and the page that is replaced are retired. -/
theorem mem_retiredKeys_newly {root : Option Key} {pages : List CatalogPageRef} {now : Nat} :
    key ∈ retiredKeys ((root.toList ++
        (if replaceLast then pages.getLast?.map (·.pageKey) else none).toList).map
          fun objectKey => ⟨objectKey, now⟩) ↔
      root = some key ∨
        (replaceLast = true ∧ ∃ lastRef, pages.getLast? = some lastRef ∧
        lastRef.pageKey = key) := by
  cases replaceLast <;> simp [retiredKeys, Option.mem_toList, Function.comp_def]

/-- A page stays unless it is the last one and replaced. -/
theorem mem_staying_or_last {pages : List CatalogPageRef} (hmem : reference ∈ pages) :
    reference ∈ (if replaceLast then pages.dropLast else pages) ∨
      (replaceLast = true ∧ pages.getLast? = some reference) := by
  cases replaceLast with
  | false => exact .inl hmem
  | true =>
    cases hlast : pages.getLast? with
    | none =>
      rw [getLast?_eq_none_iff.mp hlast] at hmem
      cases hmem
    | some last =>
      obtain ⟨front, rfl⟩ := getLast?_eq_some_iff.mp hlast
      rw [if_pos rfl, dropLast_concat]
      exact (mem_append.mp hmem).imp_right fun hmem => ⟨rfl, by rw [mem_singleton.mp hmem]⟩

/-- A group whose manifest and artifacts are uploaded with the entry built from the manifest is
fresh. -/
theorem FreshGroup.of_controlUpload {mf : TierGroupManifest}
    (hmem : controlUpload C txId (.manifest mf.groupSequence) (.manifest mf) context ∈ uploads)
    (hentry : fromManifest mf
      (controlUpload C txId (.manifest mf.groupSequence) (.manifest mf) context).key
      (controlUpload C txId (.manifest mf.groupSequence) (.manifest mf) context).expected =
        .ok entry)
    (hartifacts : ∀ art ∈ mf.artifacts, ∃ up ∈ uploads,
      ArtifactUpload txId mf.groupSequence art up) :
    FreshGroup C txId uploads entry mf := by
  obtain ⟨hsequence, -, hkey, hbytes, hchecksum⟩ := fromManifest_spec hentry
  refine ⟨⟨_, hmem, hkey.symm, rfl⟩, ⟨_, by rw [hkey, hsequence]; rfl⟩, hbytes.symm,
    hchecksum.symm, ?_⟩
  intro art hart
  obtain ⟨up, hupload, hspec⟩ := hartifacts art hart
  exact ⟨up, hupload, hsequence ▸ hspec⟩

/-- What `prepareGroup` has prepared when it goes on to publish. -/
structure PreparedGroup (C : Codec β) (view : View β) (tier : TelemetryObjectTier)
    (source : TierGroupSource) (manifest : TierGroupManifest) (publication : Publication β)
    (entry : CatalogGroupEntry) : Prop where
  derives : Derives C view tier publication (catalogGroups view tier.root.pages ++ [entry])
  fresh : FreshGroup C publication.transaction.transactionId publication.uploads entry manifest
  manifest_sequence : manifest.groupSequence = source.groupSequence
  manifest_checkpoint : manifest.checkpoint = source.checkpoint
  manifest_blocks : manifest.blocks = source.blocks
  entry_sequence : entry.groupSequence = source.groupSequence
  entry_checkpoint : entry.checkpoint = source.checkpoint
  latestCheckpoint : publication.nextRoot.latestCheckpoint = some source.checkpoint

/-- What `prepareGroup` has put together when it prepares the publication: the entry of the
manifest, the page that takes it and the next root. -/
structure GroupPlan (C : Codec β) (view : View β) (tier : TelemetryObjectTier)
    (source : TierGroupSource) (transactionId : TransactionId) (artifactUploads : List (Upload β))
    (manifest : TierGroupManifest) (entry : CatalogGroupEntry) (page : CatalogPage)
    (replaceLast : Bool) (pageRef : CatalogPageRef) (nextRoot : CatalogRoot)
    (newlyRetired : List RetiredObject) (now : Nat) : Prop where
  generation : nextRoot.generation = tier.root.generation + 1
  transaction_generation : transactionId.generation = nextRoot.generation
  pages : nextRoot.pages =
    (if replaceLast then tier.root.pages.dropLast else tier.root.pages) ++ [pageRef]
  retired : nextRoot.retiredObjects = retire tier.root.retiredObjects newlyRetired
  newly : newlyRetired = (tier.currentRootKey.toList ++
    (if replaceLast then tier.root.pages.getLast?.map (·.pageKey) else none).toList).map
      fun objectKey => ⟨objectKey, now⟩
  latest : nextRoot.latestCheckpoint = some source.checkpoint
  sequence : manifest.groupSequence = source.groupSequence
  checkpoint : manifest.checkpoint = source.checkpoint
  blocks : manifest.blocks = source.blocks
  uploaded : ∀ artifact ∈ manifest.artifacts, ∃ upload ∈ artifactUploads,
    ArtifactUpload transactionId source.groupSequence artifact upload
  artifacts : ∀ upload ∈ artifactUploads, ∃ artifact ∈ manifest.artifacts,
    artifact.objectKey = upload.key
  listed : fromManifest manifest
    (controlUpload C transactionId (.manifest manifest.groupSequence) (.manifest manifest)
      "group manifest").key
    (controlUpload C transactionId (.manifest manifest.groupSequence) (.manifest manifest)
      "group manifest").expected = .ok entry
  last : ∀ lastRef, tier.root.pages.getLast? = some lastRef → ∃ lastGroup,
    (pageGroups view lastRef).getLast? = some lastGroup ∧
      lastGroup.groupSequence < source.groupSequence
  takes : Takes view tier.root.pages entry page replaceLast
  referenced : fromPage page
    (controlUpload C transactionId (.page page.pageSequence) (.page page) "catalog page").key
    (controlUpload C transactionId (.page page.pageSequence) (.page page) "catalog page").expected =
      .ok pageRef

section Plan

variable {C : Codec β} {source : TierGroupSource} {artifactUploads : List (Upload β)}
  {nextRoot : CatalogRoot} {newly : List RetiredObject} {pub : Publication β} {now : Nat}
  (plan : GroupPlan C view tier source txId artifactUploads mf entry page replaceLast pageRef
    nextRoot newly now)
  (hprep : Prepared C tier txId (artifactUploads ++
      [controlUpload C txId (.manifest mf.groupSequence) (.manifest mf) "group manifest",
      controlUpload C txId (.page page.pageSequence) (.page page) "catalog page"])
    nextRoot newly pub)
include plan

theorem GroupPlan.entry_sequence : entry.groupSequence = source.groupSequence :=
  (fromManifest_spec plan.listed).1.trans plan.sequence

/-- Every page that the next root leaves out is retired. -/
theorem GroupPlan.relinquished_page (hmem : reference ∈ tier.root.pages) :
    reference ∈ nextRoot.pages ∨ reference.pageKey ∈ retiredKeys newly := by
  rw [plan.pages, plan.newly]
  refine (mem_staying_or_last hmem).imp (mem_append_left _) fun ⟨hreplaced, hlastRef⟩ => ?_
  exact mem_retiredKeys_newly.mpr (.inr ⟨hreplaced, reference, hlastRef, rfl⟩)

include hprep

theorem GroupPlan.fresh : FreshGroup C txId pub.uploads entry mf := by
  refine .of_controlUpload (hprep.mem_uploads (mem_append_right _ mem_cons_self)) plan.listed
    fun art hmem => ?_
  obtain ⟨up, hupload, hspec⟩ := plan.uploaded art hmem
  exact ⟨up, hprep.mem_uploads (mem_append_left _ hupload), plan.sequence ▸ hspec⟩

/-- The pages of the next root hold the groups of the catalog and the new one. -/
theorem GroupPlan.arranged : Arranged C view txId pub.uploads tier.root.pages nextRoot.pages
    (catalogGroups view tier.root.pages ++ [entry]) := by
  rw [plan.pages, ← plan.takes.groups]
  refine .append_fresh (fun old hold => ?_)
    (.of_controlUpload (hprep.mem_uploads (by simp)) plan.referenced)
  split at hold
  · exact dropLast_subset _ hold
  · exact hold

/-- What is uploaded besides the root is the page, or belongs to the group. -/
theorem GroupPlan.upload_cases (hmem : up ∈ artifactUploads ++
      [controlUpload C txId (.manifest mf.groupSequence) (.manifest mf) "group manifest",
      controlUpload C txId (.page page.pageSequence) (.page page) "catalog page"]) :
    (∃ reference ∈ nextRoot.pages, reference.pageKey = up.key) ∨
      ∃ group ∈ catalogGroups view tier.root.pages ++ [entry], ∃ manifest,
        FreshGroup C txId pub.uploads group manifest ∧
          (up.key = group.manifestKey ∨ ∃ art ∈ manifest.artifacts, art.objectKey = up.key) := by
  have hfresh := plan.fresh hprep
  have hin : entry ∈ catalogGroups view tier.root.pages ++ [entry] :=
    mem_append_right _ mem_cons_self
  rcases mem_append.mp hmem with hmem | hmem
  · exact .inr ⟨entry, hin, mf, hfresh, .inr (plan.artifacts up hmem)⟩
  · rcases mem_cons.mp hmem with rfl | hmem
    · obtain ⟨-, -, hkey, -⟩ := fromManifest_spec plan.listed
      exact .inr ⟨entry, hin, mf, hfresh, .inl hkey.symm⟩
    · rw [mem_singleton.mp hmem]
      obtain ⟨-, hpageKey, -⟩ := fromPage_spec plan.referenced
      rw [plan.pages]
      exact .inl ⟨pageRef, mem_append_right _ mem_cons_self, hpageKey⟩

theorem preparedGroup_of_prepared : PreparedGroup C view tier source mf pub entry := by
  obtain ⟨-, hcp, -⟩ := fromManifest_spec plan.listed
  have hfresh := plan.fresh hprep
  have harranged := plan.arranged hprep
  obtain rfl := hprep.nextRoot_eq
  obtain rfl := hprep.newlyRetired_eq
  obtain rfl := hprep.transactionId_eq
  refine ⟨?_, hfresh, plan.sequence, plan.checkpoint, plan.blocks, plan.entry_sequence,
    hcp.trans plan.checkpoint, plan.latest⟩
  refine { hprep with
    generation := plan.generation
    transaction_generation := plan.transaction_generation.trans plan.generation
    target_generation := hprep.target_generation.trans plan.generation
    pointer_key := ⟨_, hprep.pointer_key⟩
    pointer_bytes := hprep.pointer_bytes.symm
    pointer_checksum := hprep.pointer_checksum.symm
    root_upload := hprep.root_upload
    retired := fun key => by rw [plan.retired]; exact mem_retiredKeys_retire
    arranged := harranged
    groups := ?groups
    ordered := ordered_append_entry (plan.entry_sequence ▸ plan.last)
    newly_retired := ?newly_retired
    relinquished_root := fun key hkey => plan.newly ▸ mem_retiredKeys_newly.mpr (.inl hkey)
    relinquished_page := fun reference hmem => plan.relinquished_page hmem
    relinquished_group := fun group hgroup => .inl (mem_append_left _ hgroup)
    uploads := fun up hmem =>
      (hprep.upload_cases hmem).imp_right fun hmem => plan.upload_cases hprep hmem }
  case groups =>
    intro group hgroup
    refine (mem_append.mp hgroup).imp_right fun hgroup => ?_
    rw [mem_singleton.mp hgroup]
    exact ⟨mf, hfresh⟩
  case newly_retired =>
    intro key hkey
    rw [plan.newly] at hkey
    refine (mem_retiredKeys_newly.mp hkey).imp_right fun ⟨_, lastRef, hmem, heq⟩ =>
      .inl ⟨lastRef, ?_, heq⟩
    exact mem_of_getLast? hmem

end Plan

variable (hP : Reading P I view (· ∈ reachedKeys view tier.root.pages))

include hP

theorem prepareGroup_keeps (source) : Keeps P I tier none (prepareGroup C source) fun res phase =>
      ∀ mf pub, res = .inr (mf, pub) → phase = some pub.transaction.transactionId.identity ∧
          ∃ entry, PreparedGroup C view tier source mf pub entry := by
  refine Keeps.ofExcept_bind hP.rely fun _ _ => Keeps.get_bind ?_
  refine Keeps.ofExcept_bind hP.rely fun nextGeneration hgen => ?_
  refine (newTransactionId_keeps hP nextGeneration).bind ?_
  rintro txId _ ⟨rfl, htx⟩
  refine (hashArtifacts_keeps hP txId source.groupSequence source.artifacts).bind
    fun (artifacts, artifactUploads) hartifacts => ?_
  refine Keeps.ofExcept_bind hP.rely fun _ _ => ?_
  refine Keeps.ofExcept_bind hP.rely fun _ _ => ?_
  refine Keeps.ofExcept_bind hP.rely fun entry hentry => ?_
  refine (checkLastGroup_keeps hP source _).bind fun existing hexisting => ?_
  cases existing with
  | some existing => exact Keeps.pure hP.rely nofun
  | none =>
    refine (nextPage_keeps hP entry).bind fun (page, replaceLast) hpage => ?_
    refine Keeps.ofExcept_bind hP.rely fun _ _ => ?_
    refine Keeps.ofExcept_bind hP.rely fun _ _ => ?_
    refine Keeps.ofExcept_bind hP.rely fun pageRef hpageRef => ?_
    refine Keeps.ofExcept_bind hP.rely fun _ _ => ?_
    refine Keeps.ofExcept_bind hP.rely fun nextBlockId _ => ?_
    refine (unixTimeMillis_keeps hP).bind fun now _ => ?_
    refine (preparePublication_keeps hP).bind fun pub hprep => ?_
    refine Keeps.pure hP.rely ?_
    rintro manifest' publication' heq
    obtain ⟨rfl, rfl⟩ := Prod.mk.inj (Sum.inr.inj heq)
    refine ⟨by rw [hprep.transactionId_eq], entry, ?_⟩
    exact preparedGroup_of_prepared ⟨nextGeneration_eq hgen, htx, rfl, rfl, rfl, rfl, rfl, rfl, rfl,
      hartifacts.1, hartifacts.2, hentry, hexisting rfl, hpage, hpageRef⟩ hprep

end PrepareGroup

end ShardTelemetry.Tier
