import ShardTelemetry.Tier.Ownership

/-!
# Several writers on one namespace

Any number of instances work on one namespace, each with its own and possibly stale root.  The
record of the past says which object was written under a key, which transactions `CURRENT` has
selected, which ones a recovery has judged abandoned, and who drew which identity.

`StoreOk` is the invariant of the store with its past.  Its centre is that everything below the root
`CURRENT` selects is present, and that no root, however old, has retired any of it.  It holds as
long as no transaction is both judged abandoned and selected (`Shared.Settled`).

`Others me` is what the instances other than `me` may do between two effects of `me`.  They leave
alone what `me` has written below a transaction that is neither selected nor judged abandoned.
-/

namespace ShardTelemetry.Tier

open List History

variable {β : Type}

/-! ## The past -/

/-- The transaction a key lies below. -/
def Key.transaction? : Key → Option TransactionId
  | .object transaction _ => some transaction
  | _ => none

namespace History

/-- The object that was written under a key. -/
def view (history : History β) : View β := fun key => history.written.lookup key

/-- The transactions `CURRENT` has selected. -/
def committedIds (history : History β) : List TransactionId :=
  history.committed.filterMap fun entry => entry.1.rootKey.transaction?

/-- The root `CURRENT` selects is stored under the key, or reaches it. -/
def Uses (history : History β) (key : Key) : Prop :=
  ∃ last ∈ history.committed.getLast?, ∃ root, history.view last.1.rootKey = some (.root root) ∧
    (key = last.1.rootKey ∨ key ∈ reachedKeys history.view root.pages)

/-- Some root that `CURRENT` has selected retired the key. -/
def Retired (history : History β) (key : Key) : Prop :=
  ∃ entry ∈ history.committed, ∃ root, history.view entry.1.rootKey = some (.root root) ∧
    key ∈ retiredKeys root.retiredObjects

/-- Whatever was written stays written as it was. -/
def Extends (history history' : History β) : Prop :=
  ∀ key object, history.view key = some object → history'.view key = some object

end History

/-- A root that `CURRENT` has selected: it is well formed in the past, and its keys belong to
transactions that were selected. -/
structure Committed (C : Codec β) (history : History β) (pointer : CatalogPointer)
    (root : CatalogRoot) : Prop where
  recorded : Recorded C history.view pointer.rootKey pointer.rootBytes pointer.rootChecksum
    (.root root)
  ok : RootOk C history.view (some pointer.rootKey) root
  ids : ∀ key, key = pointer.rootKey ∨ key ∈ reachedKeys history.view root.pages ∨
    key ∈ retiredKeys root.retiredObjects → ∃ id path, key = .object id path ∧
      id ∈ history.committedIds

/-- The invariant of the store with its past. -/
structure StoreOk (C : Codec β) (shared : Shared β) : Prop where
  current : shared.store.objects .current =
    shared.history.committed.getLast?.map fun entry => ⟨.pointer entry.1, entry.2⟩
  increasing : shared.history.committed.Pairwise (·.2 < ·.2)
  below : ∀ entry ∈ shared.history.committed, entry.2 < shared.store.nextVersion
  nodup : (shared.history.written.map (·.1)).Nodup
  written : ∀ id path object, shared.store.contents (.object id path) = some object →
    shared.history.view (.object id path) = some object
  issued : (shared.history.issued.map (·.2)).Nodup
  written_issued : ∀ entry ∈ shared.history.written, ∃ id path, entry.1 = .object id path ∧
    id.identity ∈ shared.history.issued.map (·.2)
  committed_issued :
    ∀ id ∈ shared.history.committedIds, id.identity ∈ shared.history.issued.map (·.2)
  abandoned : ∀ id ∈ shared.history.abandoned, id ∉ shared.history.committedIds
  roots : ∀ entry ∈ shared.history.committed, ∃ root, Committed C shared.history entry.1 root
  used : ∀ key, shared.history.Uses key → shared.store.contents key = shared.history.view key
  unretired : ∀ key, shared.history.Retired key → ¬ shared.history.Uses key

/-- No transaction is both judged abandoned and selected, and no identity is drawn twice. -/
def Shared.Settled (shared : Shared β) (choice : Choice β) : Effect β → Prop
  | .abandon transaction => transaction.transactionId ∉ shared.history.committedIds
  | .compareAndSwap .current expectedVersion (.pointer pointer) =>
    shared.store.version .current = expectedVersion →
      ∀ id ∈ pointer.rootKey.transaction?, id ∉ shared.history.abandoned
  | .identity => choice.identity ∉ shared.history.issued.map (·.2)
  | _ => True

/-- What the instances other than `me` may do. -/
structure Others (C : Codec β) (me : Nat) (shared shared' : Shared β) : Prop where
  ok : StoreOk C shared → StoreOk C shared'
  committed : ∃ new, shared'.history.committed = shared.history.committed ++ new ∧
    ∀ entry ∈ new, ∀ id ∈ entry.1.rootKey.transaction?, (me, id.identity) ∉ shared.history.issued
  written : ∃ new, shared'.history.written = new ++ shared.history.written ∧
    ∀ entry ∈ new, ∀ id ∈ entry.1.transaction?, (me, id.identity) ∉ shared.history.issued
  abandoned : shared.history.abandoned ⊆ shared'.history.abandoned
  issued :
    ∃ new, shared'.history.issued = new ++ shared.history.issued ∧ ∀ entry ∈ new, entry.1 ≠ me
  kept : ∀ id path, (me, id.identity) ∈ shared.history.issued →
    id ∉ shared.history.committedIds →
      shared'.store.objects (.object id path) = shared.store.objects (.object id path) ∨
        id ∈ shared'.history.abandoned

/-! ## Stability -/

section Stability

theorem Others.refl (s) : Others C me s s where
  ok h := h
  committed := ⟨[], by simp, by simp⟩
  written := ⟨[], by simp, by simp⟩
  abandoned _ h := h
  issued := ⟨[], by simp, by simp⟩
  kept _ _ _ _ := .inl rfl

theorem Others.issued_mem (h : Others C me s s')
    (hmem : entry ∈ s.history.issued) : entry ∈ s'.history.issued := by
  obtain ⟨new, heq, -⟩ := h.issued
  rw [heq]
  exact mem_append_right _ hmem

variable {id : TransactionId} {hist hist' : History β}

/-- A transaction of `me` is not selected by others. -/
theorem History.uncommitted (h : ∃ new, hist'.committed = hist.committed ++ new ∧
      ∀ entry ∈ new, ∀ id ∈ entry.1.rootKey.transaction?, (me, id.identity) ∉ hist.issued)
    (hmine : (me, id.identity) ∈ hist.issued) (hid : id ∉ hist.committedIds) :
    id ∉ hist'.committedIds := by
  obtain ⟨new, heq, hnew⟩ := h
  rw [committedIds, heq, filterMap_append, mem_append]
  rintro (hmem | hmem)
  · exact hid hmem
  · obtain ⟨entry, hentry, hkey⟩ := mem_filterMap.mp hmem
    exact hnew entry hentry id hkey hmine

theorem Others.trans (h : Others C me s s') (h' : Others C me s' s'') : Others C me s s'' where
  ok hok := h'.ok (h.ok hok)
  committed := by
    obtain ⟨new, heq, hnew⟩ := h.committed
    obtain ⟨new', heq', hnew'⟩ := h'.committed
    refine ⟨new ++ new', by rw [heq', heq, append_assoc], fun entry hmem id hid hmine => ?_⟩
    rcases mem_append.mp hmem with hmem | hmem
    · exact hnew entry hmem id hid hmine
    · exact hnew' entry hmem id hid (h.issued_mem hmine)
  written := by
    obtain ⟨new, heq, hnew⟩ := h.written
    obtain ⟨new', heq', hnew'⟩ := h'.written
    refine ⟨new' ++ new, by rw [heq', heq, append_assoc], fun entry hmem id hid hmine => ?_⟩
    rcases mem_append.mp hmem with hmem | hmem
    · exact hnew' entry hmem id hid (h.issued_mem hmine)
    · exact hnew entry hmem id hid hmine
  abandoned _ hmem := h'.abandoned (h.abandoned hmem)
  issued := by
    obtain ⟨new, heq, hnew⟩ := h.issued
    obtain ⟨new', heq', hnew'⟩ := h'.issued
    refine ⟨new' ++ new, by rw [heq', heq, append_assoc], fun entry hmem => ?_⟩
    rcases mem_append.mp hmem with hmem | hmem
    · exact hnew' entry hmem
    · exact hnew entry hmem
  kept id path hmine hid := by
    rcases h.kept id path hmine hid with heq | hgone
    · rw [← heq]
      exact h'.kept id path (h.issued_mem hmine) (uncommitted h.committed hmine hid)
    · exact .inr (h'.abandoned hgone)

/-- Writing under new keys keeps what was written. -/
theorem History.extends_of_nodup (heq : hist'.written = new ++ hist.written)
    (hnodup : (hist'.written.map (·.1)).Nodup) : hist.Extends hist' := by
  intro key obj hkey
  rw [heq, map_append, nodup_append] at hnodup
  have hnone : new.lookup key = none := by
    rw [lookup_eq_none_iff]
    intro entry hmem
    have hold : (hist.written.lookup key).isSome := by
      rw [show hist.written.lookup key = some obj from hkey]
      rfl
    obtain ⟨old, hmem', hkey'⟩ := lookup_isSome_iff.mp hold
    have hne := hnodup.2.2 entry.1 (mem_map_of_mem hmem) old.1 (mem_map_of_mem hmem')
    rw [beq_iff_eq] at hkey'
    simpa [hkey', bne_iff_ne] using hne.symm
  rw [view, heq, lookup_append, hnone]
  exact hkey

theorem Others.extends (h : Others C me s s') (hok : StoreOk C s) :
    s.history.Extends s'.history := by
  obtain ⟨new, heq, -⟩ := h.written
  exact extends_of_nodup heq (h.ok hok).nodup

/-- What a well-formed root reaches was written, so it reads the same ever after. -/
theorem RootOk.view_eq (h : RootOk C hist.view rootKey root) (hext : hist.Extends hist') :
    ∀ key ∈ reachedKeys hist.view root.pages, hist'.view key = hist.view key := by
  intro key hkey
  obtain ⟨obj, hobj⟩ := Option.ne_none_iff_exists'.mp (h.intact.present hkey)
  rw [hobj, hext key obj hobj]

theorem Committed.extends (h : Committed C hist ptr root) (hext : hist.Extends hist')
    (hids : hist.committedIds ⊆ hist'.committedIds) : Committed C hist' ptr root := by
  have hview := h.ok.view_eq hext
  refine ⟨⟨hext _ _ h.recorded.1, h.recorded.2⟩, h.ok.congr hview, fun key hkey => ?_⟩
  rw [reachedKeys_congr hview] at hkey
  obtain ⟨id, path, heq, hid⟩ := h.ids key hkey
  exact ⟨id, path, heq, hids hid⟩

end Stability

/-! ## What is known of the selected root -/

section Selected

variable {C : Codec β} {s : Shared β}

section

variable (hok : StoreOk C s)
include hok

/-- The root under the key of a pointer that was selected. -/
theorem StoreOk.committed_root (hmem : entry ∈ s.history.committed)
    (hroot : s.history.view entry.1.rootKey = some (.root root)) :
    Committed C s.history entry.1 root := by
  obtain ⟨root', h⟩ := hok.roots entry hmem
  obtain rfl : root = root' := by simpa [h.recorded.1] using hroot.symm
  exact h

theorem StoreOk.roots_extends (hext : s.history.Extends hist)
    (hids : s.history.committedIds ⊆ hist.committedIds) :
    ∀ entry ∈ s.history.committed, ∃ root, Committed C hist entry.1 root := by
  intro entry hmem
  obtain ⟨root, h⟩ := hok.roots entry hmem
  exact ⟨root, h.extends hext hids⟩

/-- A used key belongs to a transaction that was selected. -/
theorem StoreOk.uses_ids (huses : s.history.Uses key) :
    ∃ id path, key = .object id path ∧ id ∈ s.history.committedIds := by
  obtain ⟨last, hlast, root, hroot, hkey⟩ := huses
  refine (hok.committed_root (mem_of_getLast? hlast) hroot).ids key ?_
  rcases hkey with hkey | hkey
  · exact .inl hkey
  · exact .inr (.inl hkey)

/-- A retired key belongs to a transaction that was selected. -/
theorem StoreOk.retired_ids (hret : s.history.Retired key) :
    ∃ id path, key = .object id path ∧ id ∈ s.history.committedIds := by
  obtain ⟨entry, hmem, root, hroot, hkey⟩ := hret
  exact (hok.committed_root hmem hroot).ids key (.inr (.inr hkey))

/-- Two instances do not draw the same identity. -/
theorem StoreOk.issued_unique (h : (owner, ident) ∈ s.history.issued)
    (h' : (owner', ident) ∈ s.history.issued) : owner = owner' := by
  have hinj := inj_on_of_nodup_map hok.issued h h' rfl
  exact (Prod.mk.inj hinj).1

/-- What was selected and what was written determine what is used. -/
theorem StoreOk.uses_iff (hcom : hist.committed = s.history.committed)
    (hext : s.history.Extends hist) : hist.Uses key ↔ s.history.Uses key := by
  have hroot : ∀ entry ∈ s.history.committed, ∀ root,
      hist.view entry.1.rootKey = some (.root root) ↔
        s.history.view entry.1.rootKey = some (.root root) := by
    intro entry hmem root
    obtain ⟨root', h⟩ := hok.roots entry hmem
    rw [hext _ _ h.recorded.1, h.recorded.1]
  unfold Uses
  rw [hcom]
  constructor
  · rintro ⟨last, hlast, root, hview, hkey⟩
    have hmem := mem_of_getLast? hlast
    rw [hroot last hmem] at hview
    rw [reachedKeys_congr ((hok.committed_root hmem hview).ok.view_eq hext)] at hkey
    exact ⟨last, hlast, root, hview, hkey⟩
  · rintro ⟨last, hlast, root, hview, hkey⟩
    have hmem := mem_of_getLast? hlast
    rw [← reachedKeys_congr ((hok.committed_root hmem hview).ok.view_eq hext)] at hkey
    exact ⟨last, hlast, root, (hroot last hmem root).mpr hview, hkey⟩

theorem StoreOk.retired_iff (hcom : hist.committed = s.history.committed)
    (hext : s.history.Extends hist) : hist.Retired key ↔ s.history.Retired key := by
  unfold Retired
  rw [hcom]
  constructor
  · rintro ⟨entry, hmem, root, hview, hkey⟩
    obtain ⟨root', h⟩ := hok.roots entry hmem
    rw [hext _ _ h.recorded.1] at hview
    exact ⟨entry, hmem, root, h.recorded.1.trans hview, hkey⟩
  · rintro ⟨entry, hmem, root, hview, hkey⟩
    exact ⟨entry, hmem, root, hext _ _ hview, hkey⟩

end

end Selected

/-! ## Single effects -/

section Effects

variable {C : Codec β} {s : Shared β}

/-- The keys that `me` may delete: the record of a transaction, and objects of transactions that
were judged abandoned, that were retired, or that are its own and not selected. -/
def Deletable (me : Nat) (s : Shared β) (key : Key) : Prop :=
  key = .pending ∨ ∃ id path, key = .object id path ∧
    (id ∈ s.history.abandoned ∨ s.history.Retired key ∨
      ((me, id.identity) ∈ s.history.issued ∧ id ∉ s.history.committedIds))

theorem Deletable.unused (h : Deletable me s key) (hok : StoreOk C s) : ¬ s.history.Uses key := by
  intro huses
  obtain ⟨id, path, rfl, hid⟩ := hok.uses_ids huses
  rcases h with heq | ⟨id', path', heq, habandoned | hret | ⟨-, hmine⟩⟩
  · cases heq
  · obtain ⟨rfl, rfl⟩ := Key.object.inj heq
    exact hok.abandoned _ habandoned hid
  · exact hok.unretired _ hret huses
  · obtain ⟨rfl, rfl⟩ := Key.object.inj heq
    exact hmine hid

theorem Deletable.ne_current (h : Deletable me s key) : key ≠ .current := by
  rcases h with rfl | ⟨id, path, rfl, -⟩ <;> simp

/-- A change of the store alone that keeps `CURRENT`, everything used, and adds no object. -/
theorem StoreOk.of_store (hok : StoreOk C s)
    (hcur : store.objects .current = s.store.objects .current)
    (hver : s.store.nextVersion ≤ store.nextVersion)
    (hobjects : ∀ id path, store.contents (.object id path) = s.store.contents (.object id path) ∨
      (store.contents (.object id path) = none ∧ ¬ s.history.Uses (.object id path))) :
    StoreOk C { s with store } where
  current := hcur.trans hok.current
  increasing := hok.increasing
  below entry hmem := (hok.below entry hmem).trans_le hver
  nodup := hok.nodup
  written id path obj hobj := by
    rcases hobjects id path with heq | ⟨hnone, -⟩
    · exact hok.written id path obj (heq ▸ hobj)
    · exact absurd (hnone.symm.trans hobj) (by simp)
  issued := hok.issued
  written_issued := hok.written_issued
  committed_issued := hok.committed_issued
  abandoned := hok.abandoned
  roots := hok.roots
  used key huses := by
    obtain ⟨id, path, rfl, -⟩ := hok.uses_ids huses
    rcases hobjects id path with heq | ⟨-, hunused⟩
    · exact heq.trans (hok.used _ huses)
    · exact absurd huses hunused
  unretired := hok.unretired

/-- A change of the store alone that another instance does not notice. -/
theorem Others.of_store (hok : StoreOk C { s with store })
    (hkept : ∀ id path, (other, id.identity) ∈ s.history.issued → id ∉ s.history.committedIds →
      store.objects (.object id path) = s.store.objects (.object id path) ∨
        id ∈ s.history.abandoned) :
    Others C other s { s with store } :=
  { Others.refl (C := C) s with ok := fun _ => hok, kept := hkept }

section

variable (hok : StoreOk C s)
include hok

theorem others_erase (hkey : Deletable me s key) (hother : other ≠ me) :
    Others C other s { s with store := s.store.erase key } := by
  refine Others.of_store (hok.of_store ?_ le_rfl fun id path => ?_) fun id path hissued hid => ?_
  · exact Store.objects_erase_of_ne (Ne.symm hkey.ne_current)
  · by_cases heq : .object id path = key
    · subst heq
      exact .inr ⟨Store.contents_erase_self, hkey.unused hok⟩
    · exact .inl (by rw [Store.contents_erase, if_neg heq])
  · by_cases heq : .object id path = key
    · subst heq
      rcases hkey with heq | ⟨id', path', heq, habandoned | hret | ⟨hmine, -⟩⟩
      · cases heq
      · obtain ⟨rfl, rfl⟩ := Key.object.inj heq
        exact .inr habandoned
      · obtain ⟨id', path', heq', hid'⟩ := hok.retired_ids hret
        obtain ⟨rfl, rfl⟩ := Key.object.inj heq'
        exact absurd hid' hid
      · obtain ⟨rfl, rfl⟩ := Key.object.inj heq
        exact absurd (hok.issued_unique hissued hmine) hother
    · exact .inl (Store.objects_erase_of_ne heq)

theorem others_insert_pending (obj) :
    Others C other s { s with store := s.store.insert .pending obj } := by
  refine Others.of_store (hok.of_store ?_ (Nat.le_succ _) fun id path => ?_) fun id path _ _ => ?_
  · exact Store.objects_insert_of_ne (by simp)
  · exact .inl (Store.contents_insert_of_ne (by simp))
  · exact .inl (Store.objects_insert_of_ne (by simp))

theorem others_identity (hfresh : ident ∉ s.history.issued.map (·.2)) (hother : other ≠ me) :
    Others C other s { s with
      history := { s.history with issued := (me, ident) :: s.history.issued } } :=
  { Others.refl (C := C) s with
    ok := fun _ =>
      { hok with
        issued := nodup_cons.mpr ⟨hfresh, hok.issued⟩
        written_issued := fun entry hmem => by
          obtain ⟨id, path, heq, hid⟩ := hok.written_issued entry hmem
          exact ⟨id, path, heq, .tail _ hid⟩
        committed_issued := fun id hid => .tail _ (hok.committed_issued id hid)
        roots := hok.roots_extends (fun _ _ h => h) fun _ h => h }
    issued := ⟨[(me, ident)], rfl, by simpa using hother.symm⟩ }

theorem others_abandon {id : TransactionId} (hid : id ∉ s.history.committedIds) :
    Others C other s { s with
      history := { s.history with abandoned := id :: s.history.abandoned } } :=
  { Others.refl (C := C) s with
    ok := fun _ =>
      { hok with
        abandoned := forall_mem_cons.mpr ⟨hid, hok.abandoned⟩
        roots := hok.roots_extends (fun _ _ h => h) fun _ h => h }
    abandoned := fun _ h => .tail _ h
    kept := fun _ _ _ _ => .inl rfl }

end

end Effects

end ShardTelemetry.Tier
