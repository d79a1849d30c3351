import ShardTelemetry.Tier.Prepare

/-!
# Preparing a retention

The two loops of `retain_since_timestamp` split the groups of the catalog into those that stay, in
order, and those that are given up.  A page that loses a group is rewritten or dropped, and every
key of a group given up is retired.  The prepared publication derives from the root (`Derives`).
-/

namespace ShardTelemetry.Tier

open List Cmd

variable {β S : Type}

/-- How one page is split into the groups that stay and those that are dropped, and what that adds
to the retired keys. -/
structure PageSplit (view : View β) (cutoff finalGroupSequence : Nat) (pageKey : Key)
    (groups : List CatalogGroupEntry) (pageChanged : Bool) (keys : List Key)
    (retained dropped : List CatalogGroupEntry) (pageChanged' : Bool) (keys' : List Key) :
    Prop where
  sublist : retained.Sublist groups
  split : (retained ++ dropped).Perm groups
  old : ∀ group ∈ dropped, group.groupSequence ≠ finalGroupSequence ∧
    group.maxTimestampUnixNanos < cutoff
  changed : pageChanged' = (pageChanged || !dropped.isEmpty)
  keys_iff : ∀ key, key ∈ keys' ↔ key ∈ keys ∨
    (key = pageKey ∧ pageChanged = false ∧ dropped ≠ []) ∨
      ∃ group ∈ dropped, key ∈ groupKeys view group

namespace PageSplit

variable {group : CatalogGroupEntry} {groups retained dropped : List CatalogGroupEntry}
  {pageChanged pageChanged' : Bool} {keys keys' : List Key}

theorem nil : PageSplit view cutoff finalSeq pageKey [] pageChanged keys []
    [] pageChanged keys where
  sublist := .slnil
  split := .nil
  old := by simp
  changed := by simp
  keys_iff := by simp

theorem keep (h : PageSplit view cutoff finalSeq pageKey groups pageChanged keys retained
      dropped pageChanged' keys') :
      PageSplit view cutoff finalSeq pageKey (group :: groups) pageChanged keys
      (group :: retained) dropped pageChanged' keys' where
  sublist := h.sublist.cons_cons group
  split := h.split.cons group
  old := h.old
  changed := h.changed
  keys_iff := h.keys_iff

theorem drop {state : RetentionState}
    (hold : group.groupSequence ≠ finalSeq ∧ group.maxTimestampUnixNanos < cutoff)
    (hman : view group.manifestKey = some (.manifest mf))
    (h : PageSplit view cutoff finalSeq pageKey groups true
      (state.retireGroup pageChanged pageKey group mf).retiredKeys retained dropped
        pageChanged' keys') :
    PageSplit view cutoff finalSeq pageKey (group :: groups) pageChanged
      state.retiredKeys retained (group :: dropped) pageChanged' keys' where
  sublist := h.sublist.cons group
  split := perm_middle.trans (h.split.cons group)
  old := forall_mem_cons.mpr ⟨hold, h.old⟩
  changed := by simp [h.changed]
  keys_iff key := by
    have hgroup : key ∈ groupKeys view group ↔
        key ∈ group.manifestKey :: mf.artifacts.map (·.objectKey) := by
      rw [groupKeys, groupArtifacts_of_manifest hman]
    rw [h.keys_iff]
    simp only [RetentionState.retireGroup, mem_append, ← hgroup, mem_cons]
    cases pageChanged <;> simp [or_assoc, or_and_right, exists_or]

end PageSplit

section Loops

variable {P : Rules (Effect β) Response S} {I : Option Identity → S → Prop} {C : Codec β}
  {view : View β} {tier : TelemetryObjectTier} {phase : Option Identity}
  (hP : Reading P I view (· ∈ reachedKeys view tier.root.pages))

include hP

theorem retainGroups_keeps (cutoff finalSeq availableRetirements) (pageKey)
    (hgroups : ∀ group ∈ groups, group ∈ catalogGroups view tier.root.pages) (pageChanged) (state) :
    KeepsAt P I tier phase
        (retainGroups C cutoff finalSeq availableRetirements pageKey groups pageChanged
        state) fun res => ∃ dropped, PageSplit view cutoff finalSeq pageKey groups
          pageChanged state.retiredKeys res.1 dropped res.2.1 res.2.2.retiredKeys := by
  induction groups generalizing pageChanged state with
  | nil => exact KeepsAt.pure hP.rely ⟨[], .nil⟩
  | cons group rest ih =>
    obtain ⟨hgroup, hrest⟩ := forall_mem_cons.mp hgroups
    unfold retainGroups
    split
    · refine (ih hrest pageChanged state).bind ?_
      rintro ⟨retained, res⟩ ⟨dropped, hsplit⟩
      exact KeepsAt.pure hP.rely ⟨dropped, hsplit.keep⟩
    · next hold =>
      rw [not_or, not_le] at hold
      refine (loadGroup_keeps hP hgroup).bind fun mf hman => ?_
      split
      · refine (ih hrest pageChanged state).bind ?_
        rintro ⟨retained, res⟩ ⟨dropped, hsplit⟩
        exact KeepsAt.pure hP.rely ⟨dropped, hsplit.keep⟩
      · refine (ih hrest true _).mono ?_
        rintro res ⟨dropped, hsplit⟩
        exact ⟨group :: dropped, .drop hold hman hsplit⟩

end Loops

/-- How the pages of a catalog are rewritten when groups are dropped. -/
structure PagesSplit (C : Codec β) (view : View β) (cutoff finalGroupSequence : Nat)
    (transactionId : TransactionId) (oldPages pages : List CatalogPageRef) (keys : List Key)
    (nextPages : List CatalogPageRef) (uploads : List (Upload β))
    (retained dropped : List CatalogGroupEntry) (keys' : List Key) : Prop where
  arranged : Arranged C view transactionId uploads oldPages nextPages retained
  sublist : retained.Sublist (catalogGroups view pages)
  split : (retained ++ dropped).Perm (catalogGroups view pages)
  old : ∀ group ∈ dropped, group.groupSequence ≠ finalGroupSequence ∧
    group.maxTimestampUnixNanos < cutoff
  relinquished : ∀ reference ∈ pages, reference ∈ nextPages ∨ reference.pageKey ∈ keys'
  keys_mono : ∀ key ∈ keys, key ∈ keys'
  keys_dropped : ∀ group ∈ dropped, ∀ key ∈ groupKeys view group, key ∈ keys'
  keys_source : ∀ key ∈ keys', key ∈ keys ∨ (∃ reference ∈ pages, reference.pageKey = key) ∨
    ∃ group ∈ dropped, key ∈ groupKeys view group
  used : ∀ upload ∈ uploads, ∃ reference ∈ nextPages, reference.pageKey = upload.key

theorem FreshPage.mono (h : FreshPage C txId uploads ref page) (hsub : uploads ⊆ uploads') :
    FreshPage C txId uploads' ref page where
  uploaded := let ⟨up, hmem, hspec⟩ := h.uploaded; ⟨up, hsub hmem, hspec⟩
  key := h.key
  bytes := h.bytes
  checksum := h.checksum

theorem Arranged.mono (h : Arranged C view txId uploads oldPages pages groups)
    (hsub : uploads ⊆ uploads') : Arranged C view txId uploads' oldPages pages groups := by
  induction h with
  | nil => exact .nil
  | kept hold _ ih => exact .kept hold ih
  | fresh hpage _ ih => exact .fresh (hpage.mono hsub) ih

theorem Arranged.append (h : Arranged C view txId uploads oldPages pages groups)
    (h' : Arranged C view txId uploads oldPages pages' groups') :
    Arranged C view txId uploads oldPages (pages ++ pages') (groups ++ groups') := by
  induction h with
  | nil => exact h'
  | kept hold _ ih => rw [append_assoc]; exact .kept hold ih
  | fresh hpage _ ih => rw [append_assoc]; exact .fresh hpage ih

namespace PagesSplit

variable {txId : TransactionId} {oldPages pages nextPages : List CatalogPageRef}
  {ref : CatalogPageRef}
  {keys keys₁ keys' : List Key} {uploads : List (Upload β)}
  {retained dropped : List CatalogGroupEntry}

theorem nil : PagesSplit C view cutoff finalSeq txId oldPages [] keys [] [] [] [] keys where
  arranged := .nil
  sublist := .slnil
  split := .nil
  old := by simp
  relinquished := by simp
  keys_mono := by simp
  keys_dropped := by simp
  keys_source := by simp +contextual
  used := by simp

/-- One more page in front: the groups that stay of it are those of the pages `front` that stand in
its place. -/
theorem cons (hpage : view ref.pageKey = some (.page page))
    (hsplit : PageSplit view cutoff finalSeq ref.pageKey page.groups false keys
      pageRetained pageDropped pageChanged keys₁)
    (harranged : Arranged C view txId frontUploads oldPages front pageRetained)
    (hkept : ref ∈ front ∨ pageDropped ≠ [])
    (hused : ∀ up ∈ frontUploads, ∃ ref ∈ front, ref.pageKey = up.key)
    (h : PagesSplit C view cutoff finalSeq txId oldPages pages keys₁ nextPages
      uploads retained dropped keys') :
      PagesSplit C view cutoff finalSeq txId oldPages (ref :: pages) keys
      (front ++ nextPages) (frontUploads ++ uploads) (pageRetained ++ retained)
      (pageDropped ++ dropped) keys' where
  arranged := (harranged.mono (subset_append_left _ _)).append
    (h.arranged.mono (subset_append_right _ _))
  sublist := by
    rw [catalogGroups_cons, pageGroups_of_page hpage]
    exact hsplit.sublist.append h.sublist
  split := by
    rw [catalogGroups_cons, pageGroups_of_page hpage]
    refine Perm.trans ?_ (hsplit.split.append h.split)
    simp only [append_assoc]
    exact Perm.append_left _ (perm_append_comm_assoc _ _ _)
  old group hmem := by
    rcases mem_append.mp hmem with hmem | hmem
    · exact hsplit.old group hmem
    · exact h.old group hmem
  relinquished other hmem := by
    rcases mem_cons.mp hmem with rfl | hmem
    · refine hkept.imp (mem_append_left _) fun hdropped => h.keys_mono _ ?_
      exact (hsplit.keys_iff _).mpr (.inr (.inl ⟨rfl, rfl, hdropped⟩))
    · exact (h.relinquished other hmem).imp_left (mem_append_right _)
  keys_mono key hkey := h.keys_mono key ((hsplit.keys_iff key).mpr (.inl hkey))
  keys_dropped group hmem key hkey := by
    rcases mem_append.mp hmem with hmem | hmem
    · exact h.keys_mono key ((hsplit.keys_iff key).mpr (.inr (.inr ⟨group, hmem, hkey⟩)))
    · exact h.keys_dropped group hmem key hkey
  keys_source key hkey := by
    rcases h.keys_source key hkey with hkey | ⟨other, hmem, heq⟩ | ⟨group, hmem, hkey⟩
    · rcases (hsplit.keys_iff key).mp hkey with hkey | ⟨rfl, -, -⟩ | ⟨group, hmem, hkey⟩
      · exact .inl hkey
      · exact .inr (.inl ⟨ref, .head _, rfl⟩)
      · exact .inr (.inr ⟨group, mem_append_left _ hmem, hkey⟩)
    · exact .inr (.inl ⟨other, .tail _ hmem, heq⟩)
    · exact .inr (.inr ⟨group, mem_append_right _ hmem, hkey⟩)
  used up hmem := by
    rcases mem_append.mp hmem with hmem | hmem
    · obtain ⟨other, hother, heq⟩ := hused up hmem
      exact ⟨other, mem_append_left _ hother, heq⟩
    · obtain ⟨other, hother, heq⟩ := h.used up hmem
      exact ⟨other, mem_append_right _ hother, heq⟩

end PagesSplit

/-- The pages that stand in the place of a page which lost groups. -/
theorem replacePage_spec {replacement : Option (CatalogPageRef × Upload β)}
    (h : replacePage C tier txId page retained = .ok replacement) :
    Arranged C view txId (replacement.toList.map (·.2)) oldPages
      (replacement.toList.map (·.1)) retained ∧
    ∀ up ∈ replacement.toList.map (·.2), ∃ ref ∈ replacement.toList.map (·.1),
      ref.pageKey = up.key := by
  unfold replacePage at h
  split at h
  · next hempty =>
    cases h
    obtain rfl := List.isEmpty_iff.mp hempty
    exact ⟨.nil, by simp⟩
  · simp only [bind_eq_ok] at h
    obtain ⟨_, -, _, -, ref, href, heq⟩ := h
    cases heq
    have hfresh : FreshPage C txId [_] ref _ := .of_controlUpload mem_cons_self href
    obtain ⟨-, hkey, -⟩ := CatalogPageRef.fromPage_spec href
    refine ⟨?_, by simp [hkey]⟩
    simpa using Arranged.fresh hfresh .nil

section Prepare

variable {P : Rules (Effect β) Response S} {I : Option Identity → S → Prop} {C : Codec β}
  {view : View β}
  {tier : TelemetryObjectTier} (hP : Reading P I view (· ∈ reachedKeys view tier.root.pages))

include hP

theorem retainPages_keeps {phase : Option Identity} (txId)
    (cutoff finalSeq availableRetirements) (hpages : ∀ ref ∈ pages, ref ∈ tier.root.pages) (state) :
    KeepsAt P I tier phase
      (retainPages C tier txId cutoff finalSeq availableRetirements pages state)
      fun res => ∃ retained dropped, PagesSplit C view cutoff finalSeq txId
        tier.root.pages pages state.retiredKeys res.1 res.2.1 retained dropped
          res.2.2.retiredKeys := by
  induction pages generalizing state with
  | nil => exact KeepsAt.pure hP.rely ⟨[], [], .nil⟩
  | cons ref rest ih =>
    obtain ⟨hmem, hrest⟩ := forall_mem_cons.mp hpages
    refine (loadPage_keeps hP hmem).bind fun page ⟨hpage, _, _⟩ => ?_
    have hgroups : ∀ group ∈ page.groups, group ∈ catalogGroups view tier.root.pages :=
      fun group hgroup => mem_catalogGroups.mpr
        ⟨ref, hmem, (pageGroups_of_page hpage).symm ▸ hgroup⟩
    refine (retainGroups_keeps hP cutoff finalSeq availableRetirements ref.pageKey
      hgroups false state).bind fun (retainedGroups, pageChanged, state₁)
        ⟨pageDropped, hsplit⟩ => ?_
    have hchanged := hsplit.changed
    dsimp only at hsplit hchanged ⊢
    split
    · next hunchanged =>
      -- the page lost nothing and stays as it is
      have hdropped : pageDropped = [] := by simpa [hunchanged] using hchanged
      have hretained : retainedGroups = page.groups := by
        subst hdropped
        exact hsplit.sublist.eq_of_length (by simpa using hsplit.split.length_eq)
      refine (ih hrest state₁).bind fun (nextPages, uploads, state') ⟨retained, dropped, h⟩ => ?_
      have harranged : Arranged C view txId [] tier.root.pages [ref] retainedGroups := by
        rw [hretained, ← pageGroups_of_page hpage]
        simpa using Arranged.kept hmem .nil
      exact KeepsAt.pure hP.rely
        ⟨_, _, .cons hpage hsplit harranged (.inl mem_cons_self) (by simp) h⟩
    · next hlost =>
      have hdropped : pageDropped ≠ [] := by
        rintro rfl
        simp [hchanged] at hlost
      refine Keeps.ofExcept_bind hP.rely fun replacement hreplacement => ?_
      have ⟨harranged, hused⟩ : Arranged C view txId _ tier.root.pages _ _ ∧ _ :=
        replacePage_spec hreplacement
      refine (ih hrest state₁).bind fun (nextPages, uploads, state') ⟨retained, dropped, h⟩ => ?_
      exact KeepsAt.pure hP.rely ⟨_, _, .cons hpage hsplit harranged (.inr hdropped) hused h⟩

/-- What `prepareRetention` has prepared when it goes on to publish. -/
structure PreparedRetention (C : Codec β) (view : View β) (tier : TelemetryObjectTier)
    (cutoff : Nat) (publication : Publication β) (retained dropped : List CatalogGroupEntry) :
    Prop where
  derives : Derives C view tier publication retained
  sublist : retained.Sublist (catalogGroups view tier.root.pages)
  split : (retained ++ dropped).Perm (catalogGroups view tier.root.pages)
  old : ∀ group ∈ dropped, group.maxTimestampUnixNanos < cutoff ∧
    ∀ lastPage, tier.root.pages.getLast? = some lastPage →
      group.groupSequence ≠ lastPage.lastGroupSequence
  latestCheckpoint : publication.nextRoot.latestCheckpoint = tier.root.latestCheckpoint

omit hP in
theorem preparedRetention_of_prepared {keys : List Key}
    (hlast : tier.root.pages.getLast? = some lastPage)
    (hsplit : PagesSplit C view cutoff lastPage.lastGroupSequence txId tier.root.pages
      tier.root.pages [] nextPages uploads retained dropped keys)
    (hprep : Prepared C tier txId uploads nextRoot newly pub)
    (hgen : nextRoot.generation = tier.root.generation + 1)
    (htx : txId.generation = nextRoot.generation) (hpages : nextRoot.pages = nextPages)
    (hret : nextRoot.retiredObjects = retire tier.root.retiredObjects newly)
    (hrootKey : tier.currentRootKey = some rootKey)
    (hnewly : newly = retire [] ((keys ++ [rootKey]).map fun objectKey => ⟨objectKey, now⟩))
    (hlatest : nextRoot.latestCheckpoint = tier.root.latestCheckpoint)
    (hordered : (catalogGroups view tier.root.pages).Pairwise (·.groupSequence < ·.groupSequence)) :
    PreparedRetention C view tier cutoff pub retained dropped := by
  obtain rfl := hprep.nextRoot_eq
  obtain rfl := hprep.newlyRetired_eq
  obtain rfl := hprep.transactionId_eq
  have hnewlyKeys : ∀ key, key ∈ retiredKeys pub.newlyRetired ↔ key ∈ keys ∨ key = rootKey := by
    intro key
    rw [hnewly, mem_retiredKeys_retire]
    simp [retiredKeys, Function.comp_def]
  have hdisjoint : ∀ group ∈ dropped, group ∉ retained := by
    have hnodup : (retained ++ dropped).Nodup :=
      hsplit.split.nodup_iff.mpr (hordered.imp fun h heq => absurd h (by simp [heq]))
    intro group hdropped hretained
    exact disjoint_of_nodup_append hnodup hretained hdropped
  have hcat : ∀ group, group ∈ catalogGroups view tier.root.pages ↔
      group ∈ retained ∨ group ∈ dropped := by
    intro group
    rw [← hsplit.split.mem_iff, mem_append]
  refine ⟨?_, hsplit.sublist, hsplit.split, fun group hmem => ?_, hlatest⟩
  · refine { hprep with
      generation := hgen
      transaction_generation := htx.trans hgen
      target_generation := hprep.target_generation.trans hgen
      pointer_key := ⟨_, hprep.pointer_key⟩
      pointer_bytes := hprep.pointer_bytes.symm
      pointer_checksum := hprep.pointer_checksum.symm
      root_upload := hprep.root_upload
      retired := fun key => by rw [hret]; exact mem_retiredKeys_retire
      arranged := hpages ▸ hsplit.arranged.mono fun _ => hprep.mem_uploads
      groups := fun group hmem => .inl ((hcat group).mpr (.inl hmem))
      ordered := fun h => h.sublist hsplit.sublist
      newly_retired := ?newly_retired
      relinquished_root := fun key hkey =>
        (hnewlyKeys key).mpr (.inr (Option.some.inj (hkey.symm.trans hrootKey)))
      relinquished_page := ?relinquished_page
      relinquished_group := ?relinquished_group
      uploads := ?uploads }
    case newly_retired =>
      intro key hkey
      rcases (hnewlyKeys key).mp hkey with hkey | rfl
      · rcases hsplit.keys_source key hkey with h | hpage | ⟨group, hmem, hkey⟩
        · simp at h
        · exact .inr (.inl hpage)
        · exact .inr (.inr ⟨group, (hcat group).mpr (.inr hmem), hdisjoint group hmem, hkey⟩)
      · exact .inl hrootKey
    case relinquished_page =>
      intro ref hmem
      rw [hpages, hnewlyKeys]
      exact (hsplit.relinquished ref hmem).imp_right .inl
    case relinquished_group =>
      intro group hmem
      refine ((hcat group).mp hmem).imp_right fun hdropped key hkey => ?_
      exact (hnewlyKeys key).mpr (.inl (hsplit.keys_dropped group hdropped key hkey))
    case uploads =>
      intro up hmem
      refine (hprep.upload_cases hmem).imp_right fun hmem => .inl ?_
      rw [hpages]
      exact hsplit.used up hmem
  · obtain ⟨hfinal, hlt⟩ := hsplit.old group hmem
    exact ⟨hlt, fun lastPage' h => Option.some.inj (hlast.symm.trans h) ▸ hfinal⟩

theorem prepareRetention_keeps (cutoff)
    (hordered : (catalogGroups view tier.root.pages).Pairwise (·.groupSequence < ·.groupSequence)) :
    Keeps P I tier none (prepareRetention C cutoff) fun res phase =>
        ∀ report pub, res = .inr (report, pub) →
        phase = some pub.transaction.transactionId.identity ∧
          ∃ retained dropped, PreparedRetention C view tier cutoff pub retained dropped := by
  refine Keeps.get_bind ?_
  cases hlast : tier.root.pages.getLast? with
  | none => exact Keeps.pure hP.rely nofun
  | some lastPage =>
    dsimp only
    split
    · exact Keeps.pure hP.rely nofun
    · refine Keeps.ofExcept_bind hP.rely fun nextGeneration hgen => ?_
      refine (newTransactionId_keeps hP nextGeneration).bind ?_
      rintro txId _ ⟨rfl, htx⟩
      refine (retainPages_keeps hP txId cutoff lastPage.lastGroupSequence _
        (fun _ h => h) _).bind fun (nextPages, uploads, state) ⟨retained, dropped, hsplit⟩ => ?_
      split
      · exact Keeps.pure hP.rely nofun
      · refine Keeps.ofExcept_bind hP.rely fun rootKey hrootKey => ?_
        refine (unixTimeMillis_keeps hP).bind fun now _ => ?_
        refine (preparePublication_keeps hP).bind fun pub hprep => ?_
        refine Keeps.pure hP.rely ?_
        rintro report' publication' heq
        obtain ⟨-, rfl⟩ := Prod.mk.inj (Sum.inr.inj heq)
        refine ⟨by rw [hprep.transactionId_eq], retained, dropped, ?_⟩
        exact preparedRetention_of_prepared hlast hsplit hprep (nextGeneration_eq hgen)
          htx rfl rfl (okOr_eq_ok.mp hrootKey) rfl rfl hordered

end Prepare

end ShardTelemetry.Tier
