import ShardTelemetry.Tier.Writers

/-!
# Selecting a root among several writers

The two effects of a transaction that others can notice: storing what it owns, and moving `CURRENT`.
A writer moves `CURRENT` only from the root it has loaded, since the version it expects is the one
of that root or an older one.
-/

namespace ShardTelemetry.Tier

open List

variable {β : Type} {C : Codec β} {s : Shared β}

/-- What a writer knows: its root is empty, or was selected once, and it expects the version of that
root or an older one; `retired` are the retired objects it works with. -/
def Knows (tier : TelemetryObjectTier) (retired : List RetiredObject) (history : History β) :
    Prop :=
  (tier.currentRootKey = none ∧ tier.currentVersion = none ∧ tier.root.pages = [] ∧
      tier.root.retiredObjects = [] ∧ retired = []) ∨
    ∃ entry ∈ history.committed, ∃ root version,
      history.view entry.1.rootKey = some (.root root) ∧
      tier.currentRootKey = some entry.1.rootKey ∧ tier.currentVersion = some version ∧
      version ≤ entry.2 ∧ tier.root = { root with retiredObjects := tier.root.retiredObjects } ∧
      ∀ object ∈ retired, object ∈ root.retiredObjects

theorem Knows.stable (h : Knows tier rets s.history) (hok : StoreOk C s)
    (hoth : Others C me s s') : Knows tier rets s'.history := by
  rcases h with hblank | ⟨entry, hmem, root, ver, hview, hrest⟩
  · exact .inl hblank
  · obtain ⟨new, heq, -⟩ := hoth.committed
    refine .inr ⟨entry, ?_, root, ver, hoth.extends hok _ _ hview, hrest⟩
    rw [heq]
    exact mem_append_left _ hmem

/-- A retired object the writer works with was retired by a selected root. -/
theorem Knows.retired_of_mem (h : Knows tier rets hist) (hmem : obj ∈ rets) :
    hist.Retired obj.objectKey := by
  rcases h with ⟨-, -, -, -, rfl⟩ | ⟨entry, hentry, root, ver, hview, -, -, -, -, hret⟩
  · cases hmem
  · exact ⟨entry, hentry, root, hview, mem_map_of_mem (hret obj hmem)⟩

/-- The root in memory is well formed in the past. -/
theorem Knows.rootOk (h : Knows tier tier.root.retiredObjects s.history) (hok : StoreOk C s) :
    RootOk C s.history.view tier.currentRootKey tier.root := by
  rcases h with ⟨hkey, -, hpages, hret, -⟩ |
    ⟨entry, hentry, root, ver, hview, hkey, -, -, hroot, hret⟩
  · rw [hkey]
    constructor <;> simp [hpages, hret, PagesIntact]
  · have hcom := hok.committed_root hentry hview
    have hloaded : Catalog.Loaded ⟨some entry.1.rootKey, root, []⟩ tier tier.root.retiredObjects :=
      ⟨hkey, hroot, hret⟩
    exact hloaded.rootOk hcom.ok

/-- A writer whose version is the one of `CURRENT` has loaded the selected root, or nothing was
selected yet. -/
theorem Knows.last (h : Knows tier rets s.history) (hok : StoreOk C s)
    (hver : s.store.version .current = tier.currentVersion) :
    (s.history.committed = [] ∧ tier.currentRootKey = none ∧ tier.root.pages = []) ∨
      ∃ last ∈ s.history.committed.getLast?, ∃ root,
        s.history.view last.1.rootKey = some (.root root) ∧
        tier.currentRootKey = some last.1.rootKey ∧ tier.root.pages = root.pages := by
  rw [Store.version, hok.current] at hver
  rcases h with ⟨hkey, hnone, hpages, -⟩ |
    ⟨entry, hentry, root, ver, hview, hkey, hsome, hle, hroot, -⟩
  · left
    rw [hnone] at hver
    refine ⟨?_, hkey, hpages⟩
    simpa using hver
  · right
    obtain ⟨last, hlast⟩ : ∃ last, s.history.committed.getLast? = some last :=
      Option.ne_none_iff_exists'.mp (by simpa using ne_nil_of_mem hentry)
    have heq : last.2 = ver := by simpa [hlast, hsome] using hver
    -- versions increase, so the entry of the root is the last one
    obtain rfl : entry = last := by
      by_contra hne
      have hlt : entry.2 < last.2 := by
        obtain ⟨init, hinit⟩ := getLast?_eq_some_iff.mp hlast
        have hincreasing := hok.increasing
        rw [hinit] at hentry hincreasing
        rcases mem_append.mp hentry with hmem | hmem
        · exact (pairwise_append.mp hincreasing).2.2 entry hmem last (by simp)
        · exact absurd (mem_singleton.mp hmem) hne
      exact absurd hlt (not_lt.mpr (heq ▸ hle))
    exact ⟨entry, hlast, root, hview, hkey, by rw [hroot]⟩

variable {id : TransactionId}

/-- Storing an object under a key that was never used, below a transaction that is not selected. -/
theorem StoreOk.write (hok : StoreOk C s) (hissued : id.identity ∈ s.history.issued.map (·.2))
    (hid : id ∉ s.history.committedIds) (hnew : s.history.view (.object id path) = none)
    (obj) : StoreOk C (s.write (.object id path) obj) := by
  have hnodup : ((s.write (.object id path) obj).history.written.map (·.1)).Nodup := by
    refine nodup_cons.mpr ⟨fun hmem => ?_, hok.nodup⟩
    obtain ⟨entry, hentry, heq⟩ := mem_map.mp hmem
    have hnone := lookup_eq_none_iff.mp hnew entry hentry
    simp [heq] at hnone
  have hext : s.history.Extends (s.write (.object id path) obj).history :=
    History.extends_of_nodup
      (show _ = [(.object id path, obj)] ++ s.history.written from rfl) hnodup
  have huses : ∀ {key}, (s.write (.object id path) obj).history.Uses key ↔ s.history.Uses key :=
    hok.uses_iff rfl hext
  have hret : ∀ {key}, (s.write (.object id path) obj).history.Retired key ↔
      s.history.Retired key := hok.retired_iff rfl hext
  refine ⟨?_, hok.increasing, fun entry hmem => ?_, hnodup, fun id' path' object' hobj => ?_,
    hok.issued, fun entry hmem => ?_, hok.committed_issued, hok.abandoned, fun entry hmem => ?_,
    fun key hkey => ?_, fun key hkey => ?_⟩
  · exact (Store.objects_insert_of_ne (by simp)).trans hok.current
  · exact Nat.lt_succ_of_lt (hok.below entry hmem)
  · by_cases heq : (.object id' path' : Key) = .object id path
    · rw [heq] at hobj ⊢
      rw [Shared.write, Store.contents_insert_self] at hobj
      exact lookup_cons_self.trans hobj
    · rw [Shared.write, Store.contents_insert_of_ne heq] at hobj
      exact hext _ _ (hok.written id' path' object' hobj)
  · rcases mem_cons.mp hmem with rfl | hmem
    · exact ⟨id, path, rfl, hissued⟩
    · exact hok.written_issued entry hmem
  · exact hok.roots_extends hext (fun _ h => h) entry hmem
  · rw [huses] at hkey
    have hused := hok.used key hkey
    obtain ⟨id', path', rfl, hid'⟩ := hok.uses_ids hkey
    have hne : (.object id' path' : Key) ≠ .object id path := by
      intro heq
      obtain ⟨rfl, -⟩ := Key.object.inj heq
      exact hid hid'
    rw [Shared.write, Store.contents_insert_of_ne hne, hused]
    obtain ⟨last, hlast, root, hroot, hreach⟩ := hkey
    have hcom := hok.committed_root (mem_of_getLast? hlast) hroot
    rcases hreach with heq | hreach
    · rw [heq, hroot]
      exact (hext _ _ hroot).symm
    · exact (hcom.ok.view_eq hext _ hreach).symm
  · rw [huses]
    exact hok.unretired key (hret.mp hkey)

/-- Another instance does not notice what `me` stores below its own transaction. -/
theorem others_write (hok : StoreOk C s) (hmine : (me, id.identity) ∈ s.history.issued)
    (hid : id ∉ s.history.committedIds) (hnew : s.history.view (.object id path) = none)
    (obj) (hother : other ≠ me) : Others C other s (s.write (.object id path) obj) where
  ok _ := hok.write (mem_map_of_mem hmine) hid hnew obj
  committed := ⟨[], by simp [Shared.write], by simp⟩
  written := by
    refine ⟨[(.object id path, obj)], rfl, fun entry hmem id' hid' hissued => ?_⟩
    obtain rfl := mem_singleton.mp hmem
    obtain rfl : id = id' := by simpa [Key.transaction?] using hid'
    exact hother (hok.issued_unique hissued hmine)
  abandoned _ h := h
  issued := ⟨[], by simp [Shared.write], by simp⟩
  kept id' path' hissued _ := by
    refine .inl (Store.objects_insert_of_ne fun heq => ?_)
    obtain ⟨rfl, -⟩ := Key.object.inj heq
    exact hother (hok.issued_unique hissued hmine)

/-! ## Moving `CURRENT` -/

section Commit

variable {view : View β} {pub : Publication β}

/-- The past once `CURRENT` selects the root of a publication. -/
abbrev History.select (history : History β) (publication : Publication β) (version : Version) :
    History β :=
  { history with committed := history.committed ++ [(publication.pointer, version)] }

theorem History.committedIds_select {hist : History β}
    (hkey : pub.pointer.rootKey = .object id path) :
    (hist.select pub ver).committedIds = hist.committedIds ++ [id] := by
  simp [History.committedIds, filterMap_append, hkey, Key.transaction?]

/-- What a writer needs to move `CURRENT` to the root of its publication. -/
structure Ready (C : Codec β) (me : Nat) (s : Shared β) (view : View β)
    (tier : TelemetryObjectTier) (publication : Publication β)
    (nextGroups : List CatalogGroupEntry) : Prop where
  ok : StoreOk C s
  knows : Knows tier tier.root.retiredObjects s.history
  version : s.store.version .current = tier.currentVersion
  derives : Derives C view tier publication nextGroups
  kept : ∀ key ∈ reachedKeys view tier.root.pages, s.history.view key = view key
  stored : ∀ upload ∈ publication.uploads, upload.Stored C s.history.view
  present : ∀ upload ∈ publication.uploads, s.store.contents upload.key = s.history.view upload.key
  keys : ∀ upload ∈ publication.uploads, ∃ path,
    upload.key = .object publication.transaction.transactionId path
  mine : (me, publication.transaction.transactionId.identity) ∈ s.history.issued
  uncommitted : publication.transaction.transactionId ∉ s.history.committedIds
  unabandoned : publication.transaction.transactionId ∉ s.history.abandoned

namespace Ready

variable (h : Ready C me s view tier pub nextGroups)
include h

/-- What the writer's root reaches is used or nothing was selected. -/
theorem uses_of_reached (hkey : key ∈ reachedKeys view tier.root.pages) : s.history.Uses key := by
  rcases h.knows.last h.ok h.version with ⟨-, -, hpages⟩ | ⟨last, hlast, root, hroot, -, hpages⟩
  · simp [hpages, reachedKeys] at hkey
  · refine ⟨last, hlast, root, hroot, .inr ?_⟩
    rwa [← hpages, reachedKeys_congr h.kept]

theorem uses_of_rootKey (hkey : tier.currentRootKey = some key) : s.history.Uses key := by
  rcases h.knows.last h.ok h.version with ⟨-, hnone, -⟩ | ⟨last, hlast, root, hroot, hsome, -⟩
  · simp [hnone] at hkey
  · refine ⟨last, hlast, root, hroot, .inl ?_⟩
    simpa [hsome] using hkey.symm

theorem rootOk : RootOk C s.history.view (some pub.pointer.rootKey) pub.nextRoot := by
  refine h.derives.rootOk ((h.knows.rootOk h.ok).congr fun key hkey => ?_) h.stored h.kept
  rw [reachedKeys_congr h.kept] at hkey
  exact (h.kept key hkey).symm

theorem root_written : s.history.view pub.pointer.rootKey = some (.root pub.nextRoot) := by
  obtain ⟨up, hmem, hkey, hbody⟩ := h.derives.root_upload
  have hput := h.stored up hmem
  rw [Upload.Stored, hbody, hkey] at hput
  exact hput

theorem rootKey : ∃ path, pub.pointer.rootKey = .object pub.transaction.transactionId path := by
  obtain ⟨up, hmem, hkey, -⟩ := h.derives.root_upload
  exact hkey ▸ h.keys up hmem

/-- What the next root is stored under or reaches was used before or is one of the uploads. -/
theorem used_cases (hkey : key = pub.pointer.rootKey ∨
    key ∈ reachedKeys s.history.view pub.nextRoot.pages) :
    s.history.Uses key ∨ ∃ up ∈ pub.uploads, up.key = key := by
  rcases hkey with rfl | hkey
  · obtain ⟨up, hmem, hkey, -⟩ := h.derives.root_upload
    exact .inr ⟨up, hmem, hkey⟩
  · rcases h.derives.reached_cases h.stored h.kept hkey with hold | hupload
    · exact .inl (h.uses_of_reached hold)
    · exact .inr hupload

/-- What the next root retires was retired or used before. -/
theorem retired_cases (hkey : key ∈ retiredKeys pub.nextRoot.retiredObjects) :
    s.history.Retired key ∨ s.history.Uses key := by
  rcases (h.derives.retired key).mp hkey with hold | hnew
  · obtain ⟨entry, hmem, rfl⟩ := mem_map.mp hold
    exact .inl (h.knows.retired_of_mem hmem)
  · rcases h.derives.newly_retired_used hnew with hroot | hreach
    · exact .inr (h.uses_of_rootKey hroot)
    · exact .inr (h.uses_of_reached hreach)

/-- The next root counts as selected from now on. -/
theorem committed (ver : Version) :
    Committed C (s.history.select pub ver) pub.pointer pub.nextRoot := by
  obtain ⟨path, hpath⟩ := h.rootKey
  refine ⟨⟨h.root_written, h.derives.pointer_bytes, h.derives.pointer_checksum⟩, h.rootOk,
    fun key hkey => ?_⟩
  rw [History.committedIds_select hpath]
  have hold : s.history.Uses key ∨ s.history.Retired key ∨
      ∃ up ∈ pub.uploads, up.key = key := by
    rcases hkey with hkey | hkey | hkey
    · exact (h.used_cases (.inl hkey)).imp_right .inr
    · exact (h.used_cases (.inr hkey)).imp_right .inr
    · exact (h.retired_cases hkey).symm.imp_right .inl
  rcases hold with huses | hret | ⟨up, hmem, rfl⟩
  · obtain ⟨id, path, rfl, hid⟩ := h.ok.uses_ids huses
    exact ⟨id, path, rfl, mem_append_left _ hid⟩
  · obtain ⟨id, path, rfl, hid⟩ := h.ok.retired_ids hret
    exact ⟨id, path, rfl, mem_append_left _ hid⟩
  · obtain ⟨path, heq⟩ := h.keys up hmem
    exact ⟨_, path, heq, by simp⟩

omit h in
/-- The store and its past once `CURRENT` has moved. -/
abbrev after (s : Shared β) (publication : Publication β) : Shared β :=
  { s with
    store := s.store.insert .current (.pointer publication.pointer)
    history := s.history.select publication s.store.nextVersion }

theorem uses_after (hkey : (after s pub).history.Uses key) :
    key = pub.pointer.rootKey ∨ key ∈ reachedKeys s.history.view pub.nextRoot.pages := by
  obtain ⟨last, hlast, root, hroot, hkey⟩ := hkey
  obtain rfl : (pub.pointer, s.store.nextVersion) = last := by
    simpa [after, History.select] using hlast
  obtain rfl : pub.nextRoot = root := by
    simpa [h.root_written] using h.root_written.symm.trans hroot
  exact hkey

theorem retired_after (hkey : (after s pub).history.Retired key) :
    s.history.Retired key ∨ key ∈ retiredKeys pub.nextRoot.retiredObjects := by
  obtain ⟨entry, hmem, root, hroot, hkey⟩ := hkey
  rcases mem_append.mp hmem with hold | hnew
  · exact .inl ⟨entry, hold, root, hroot, hkey⟩
  · obtain rfl := mem_singleton.mp hnew
    obtain rfl : pub.nextRoot = root := by
      simpa [h.root_written] using h.root_written.symm.trans hroot
    exact .inr hkey

theorem storeOk_after : StoreOk C (after s pub) := by
  have hok := h.ok
  obtain ⟨path, hpath⟩ := h.rootKey
  have hids : (s.history.select pub s.store.nextVersion).committedIds =
      s.history.committedIds ++ [pub.transaction.transactionId] :=
    History.committedIds_select hpath
  refine ⟨?_, ?_, fun entry hmem => ?_, hok.nodup, fun id path obj hobj => ?_, hok.issued,
    hok.written_issued, fun id hid => ?_, fun id hid => ?_, fun entry hmem =>
      ?_, fun key hkey => ?_,
    fun key hret huses => ?_⟩
  · simp [Store.insert]
  · refine pairwise_append.mpr ⟨hok.increasing, by simp, fun entry hmem last hlast => ?_⟩
    obtain rfl := mem_singleton.mp hlast
    exact hok.below entry hmem
  · rcases mem_append.mp hmem with hold | hnew
    · exact Nat.lt_succ_of_lt (hok.below entry hold)
    · obtain rfl := mem_singleton.mp hnew
      exact Nat.lt_succ_self _
  · rw [after, Store.contents_insert_of_ne (by simp)] at hobj
    exact hok.written id path obj hobj
  · rw [hids, mem_append, mem_singleton] at hid
    rcases hid with hid | rfl
    · exact hok.committed_issued id hid
    · exact mem_map_of_mem h.mine
  · rw [hids, mem_append, mem_singleton]
    rintro (hmem | rfl)
    · exact hok.abandoned id hid hmem
    · exact h.unabandoned hid
  · rcases mem_append.mp hmem with hold | hnew
    · obtain ⟨root, hroot⟩ := hok.roots entry hold
      refine ⟨root, hroot.extends (fun _ _ hview => hview) fun id hid => ?_⟩
      rw [hids]
      exact mem_append_left _ hid
    · obtain rfl := mem_singleton.mp hnew
      exact ⟨pub.nextRoot, h.committed _⟩
  · have hcont : (after s pub).store.contents key = s.store.contents key := by
      refine Store.contents_insert_of_ne ?_
      rintro rfl
      rcases h.used_cases (h.uses_after hkey) with huses | ⟨up, hmem, hupload⟩
      · obtain ⟨id, path, heq, -⟩ := hok.uses_ids huses
        cases heq
      · obtain ⟨path, heq⟩ := h.keys up hmem
        rw [hupload] at heq
        cases heq
    rw [hcont]
    rcases h.used_cases (h.uses_after hkey) with huses | ⟨up, hmem, rfl⟩
    · exact hok.used key huses
    · exact h.present up hmem
  · rcases h.retired_after hret with hold | hnew
    · rcases h.used_cases (h.uses_after huses) with hused | ⟨up, hmem, rfl⟩
      · exact hok.unretired key hold hused
      · obtain ⟨path, heq⟩ := h.keys up hmem
        obtain ⟨id, path', heq', hid⟩ := hok.retired_ids hold
        rw [heq] at heq'
        obtain ⟨rfl, -⟩ := Key.object.inj heq'
        exact h.uncommitted hid
    · obtain ⟨entry, hmem, rfl⟩ := mem_map.mp hnew
      rcases h.uses_after huses with hroot | hreach
      · exact h.rootOk.retired_unselected entry hmem (congrArg some hroot.symm)
      · exact h.rootOk.retired_unreached entry hmem hreach

/-- Another instance only notices that `CURRENT` has moved. -/
theorem others_after (hother : other ≠ me) : Others C other s (after s pub) where
  ok _ := h.storeOk_after
  committed := by
    refine ⟨[(pub.pointer, s.store.nextVersion)], rfl, fun entry hmem id hid hissued => ?_⟩
    obtain rfl := mem_singleton.mp hmem
    obtain ⟨path, hpath⟩ := h.rootKey
    obtain rfl : pub.transaction.transactionId = id := by
      simpa [hpath, Key.transaction?] using hid
    exact hother (h.ok.issued_unique hissued h.mine)
  written := ⟨[], by simp, by simp⟩
  abandoned _ hmem := hmem
  issued := ⟨[], by simp, by simp⟩
  kept _ _ _ _ := .inl (Store.objects_insert_of_ne (by simp))

/-- The writer has loaded the root it selected. -/
theorem knows_after : Knows (pub.select s.store.nextVersion tier)
    pub.nextRoot.retiredObjects (after s pub).history :=
  .inr ⟨(pub.pointer, s.store.nextVersion), by simp, pub.nextRoot,
    s.store.nextVersion, h.root_written, rfl, rfl, le_rfl, rfl, fun _ hmem => hmem⟩

end Ready

end Commit

end ShardTelemetry.Tier
