import Mathlib.Data.List.AList
import ShardTelemetry.Stripe.Postings

/-!
# Interned posting lists

Terms and fields are interned: a map gives each its number, and the numbers index a vector of
posting lists.  The same table serves both, over the type of the keys.

`Holds` says that the lists are those of a relation between keys and ordinals, for all ordinals
below a count.  A record is indexed by interning its keys and pushing its ordinal to their lists,
with a cache of the numbers in between, so what a list of numbers stands for (`Denotes`) is kept
apart.
-/

namespace ShardTelemetry.Stripe

open List

structure PostingTable (Key : Type) [DecidableEq Key] where
  ids : AList fun _ : Key => Nat
  postings : List HotPostingList

namespace PostingTable

variable {Key : Type} [DecidableEq Key]

def empty : PostingTable Key := ⟨∅, []⟩

/-- The number of a key; a new key gets the next number and an empty posting list. -/
def intern (table : PostingTable Key) (key : Key) : Nat × PostingTable Key :=
  match table.ids.lookup key with
  | some id => (id, table)
  | none =>
    let id := table.postings.length
    (id, ⟨table.ids.insert key id, table.postings ++ [HotPostingList.empty]⟩)

/-- Interns keys one after the other and collects the numbers without repetition. -/
def internAll (table : PostingTable Key) : List Key → List Nat → List Nat × PostingTable Key
  | [], ids => (ids, table)
  | key :: keys, ids =>
    match table.intern key with
    | (id, table) => table.internAll keys (if ids.contains id then ids else ids ++ [id])

def pushRange (table : PostingTable Key) (ids : List Nat) (first last : Nat) : PostingTable Key :=
  { table with
    postings := ids.foldl (fun postings id => postings.modify id (·.pushRange first last))
      table.postings }

def push (table : PostingTable Key) (ids : List Nat) (ordinal : Nat) : PostingTable Key :=
  table.pushRange ids ordinal ordinal

/-- The posting list of a key. -/
def posting (table : PostingTable Key) (key : Key) : Option HotPostingList :=
  (table.ids.lookup key).bind (table.postings[·]?)

/-! ## What a table holds -/

/-- The lists are those of a relation, for the ordinals below a count. -/
structure Holds (has : Key → Nat → Bool) (count : Nat) (table : PostingTable Key) : Prop where
  bound : ∀ key id, table.ids.lookup key = some id → id < table.postings.length
  injective : ∀ key key' id, table.ids.lookup key = some id →
    table.ids.lookup key' = some id → key = key'
  posting : ∀ key id list, table.ids.lookup key = some id → table.postings[id]? = some list →
    list.Ok ∧ list.ordinals = (range count).filter (has key)
  absent : ∀ key, table.ids.lookup key = none → ∀ ordinal < count, has key ordinal = false

/-- The numbers of some keys. -/
structure Denotes (table : PostingTable Key) (ids : List Nat) (keys : List Key) : Prop where
  nodup : ids.Nodup
  complete : ∀ key ∈ keys, ∃ id ∈ ids, table.ids.lookup key = some id
  sound : ∀ id ∈ ids, ∃ key ∈ keys, table.ids.lookup key = some id

variable {count : Nat} {table : PostingTable Key} {keys : List Key} {ids : List Nat}

theorem empty_holds (has) : (empty : PostingTable Key).Holds has 0 where
  bound _ _ h := by cases h
  injective _ _ _ h := by cases h
  posting _ _ _ h := by cases h
  absent _ _ _ h := by cases h

/-- A key that is looked up has the list of the relation, and one that is not found is nowhere. -/
theorem Holds.posting_eq (h : table.Holds has count) (key) :
    (∃ list, table.posting key = some list ∧ list.Ok ∧
      list.ordinals = (range count).filter (has key)) ∨
    (table.posting key = none ∧ (range count).filter (has key) = []) := by
  unfold PostingTable.posting
  cases hget : table.ids.lookup key with
  | none =>
    refine .inr ⟨rfl, ?_⟩
    rw [filter_eq_nil_iff]
    intro ord hordinal
    simp [h.absent key hget ord (mem_range.mp hordinal)]
  | some id =>
    have hbound := h.bound key id hget
    refine .inl ⟨table.postings[id], by simp [hbound], ?_⟩
    exact h.posting key id _ hget (by simp [hbound])

/-- The relation matters only below the count. -/
theorem Holds.congr (h : table.Holds has count)
    (heq : ∀ key, ∀ ord < count, has' key ord = has key ord) : table.Holds has' count := by
  refine ⟨h.bound, h.injective, fun key id list hget hlist => ?_, fun key hget ord hlt => ?_⟩
  · obtain ⟨hok, hordinals⟩ := h.posting key id list hget hlist
    refine ⟨hok, hordinals.trans (filter_congr fun ord hmem => ?_)⟩
    exact (heq key ord (mem_range.mp hmem)).symm
  · rw [heq key ord hlt, h.absent key hget ord hlt]

/-- The numbers of keys stay the same when other keys are added. -/
def Extends (table table' : PostingTable Key) : Prop :=
  ∀ key id, table.ids.lookup key = some id → table'.ids.lookup key = some id

theorem Extends.refl (table : PostingTable Key) : table.Extends table := fun _ _ h => h

theorem Extends.trans (h : table.Extends table')
    (h' : table'.Extends table'') :
    table.Extends table'' := fun key id hid => h' key id (h key id hid)

theorem Denotes.extends (h : table.Denotes ids keys)
    (hext : table.Extends table') : table'.Denotes ids keys := by
  refine ⟨h.nodup, fun key hkey => ?_, fun id hid => ?_⟩
  · obtain ⟨id, hid, hget⟩ := h.complete key hkey
    exact ⟨id, hid, hext key id hget⟩
  · obtain ⟨key, hkey, hget⟩ := h.sound id hid
    exact ⟨key, hkey, hext key id hget⟩

theorem extends_pushRange (ids) (first last) :
    table.Extends (table.pushRange ids first last) := fun _ _ h => h

/-! ## Interning -/

theorem Holds.intern (h : table.Holds has count) (key : Key) :
    (table.intern key).2.Holds has count ∧ table.Extends (table.intern key).2 ∧
      (table.intern key).2.ids.lookup key = some (table.intern key).1 := by
  unfold PostingTable.intern
  cases hget : table.ids.lookup key with
  | some id => exact ⟨h, .refl _, hget⟩
  | none =>
    refine ⟨⟨?_, ?_, ?_, ?_⟩, ?_, AList.lookup_insert _⟩
    · intro key' id hid
      simp only [length_append, length_singleton]
      by_cases heq : key' = key
      · subst heq
        rw [AList.lookup_insert] at hid
        cases hid
        omega
      · rw [AList.lookup_insert_ne heq] at hid
        have := h.bound key' id hid
        omega
    · intro left right id hleft hright
      -- the new number is above all others
      by_cases hl : left = key <;> by_cases hr : right = key
      · rw [hl, hr]
      · rw [hl, AList.lookup_insert] at hleft
        rw [AList.lookup_insert_ne hr] at hright
        cases hleft
        exact absurd (h.bound right _ hright) (Nat.lt_irrefl _)
      · rw [hr, AList.lookup_insert] at hright
        rw [AList.lookup_insert_ne hl] at hleft
        cases hright
        exact absurd (h.bound left _ hleft) (Nat.lt_irrefl _)
      · rw [AList.lookup_insert_ne hl] at hleft
        rw [AList.lookup_insert_ne hr] at hright
        exact h.injective left right id hleft hright
    · intro key' id list hid hlist
      by_cases heq : key' = key
      · subst heq
        rw [AList.lookup_insert] at hid
        cases hid
        simp only [getElem?_concat_length, Option.some.injEq] at hlist
        subst hlist
        refine ⟨HotPostingList.empty_ok, ?_⟩
        symm
        rw [HotPostingList.ordinals, HotPostingList.empty, flatMap_nil, filter_eq_nil_iff]
        intro ord hordinal
        simp [h.absent key' hget ord (mem_range.mp hordinal)]
      · rw [AList.lookup_insert_ne heq] at hid
        rw [getElem?_append_left (h.bound key' id hid)] at hlist
        exact h.posting key' id list hid hlist
    · intro key' hid ord hlt
      by_cases heq : key' = key
      · subst heq
        exact h.absent key' hget ord hlt
      · rw [AList.lookup_insert_ne heq] at hid
        exact h.absent key' hid ord hlt
    · intro key' id hid
      have hne : key' ≠ key := by
        rintro rfl
        rw [hget] at hid
        cases hid
      exact (AList.lookup_insert_ne hne).trans hid

/-- Interning keys gives the numbers of these keys and of those collected before. -/
theorem Holds.internAll (h : table.Holds has count) (hids : table.Denotes ids keys')
    (keys : List Key) :
    (table.internAll keys ids).2.Holds has count ∧ table.Extends (table.internAll keys ids).2 ∧
      (table.internAll keys ids).2.Denotes (table.internAll keys ids).1 (keys' ++ keys) := by
  induction keys generalizing table ids keys' with
  | nil => exact ⟨h, .refl _, by simpa [PostingTable.internAll] using hids⟩
  | cons key keys ih =>
    obtain ⟨hholds, hext, hget⟩ := h.intern key
    rw [PostingTable.internAll]
    generalize table.intern key = interned at *
    obtain ⟨id, table'⟩ := interned
    have hids' := hids.extends hext
    have hnext :
        table'.Denotes (if ids.contains id then ids else ids ++ [id]) (keys' ++ [key]) := by
      have hmem : ∀ other, other ∈ (if ids.contains id then ids else ids ++ [id]) ↔
          other ∈ ids ∨ other = id := by
        intro other
        split
        · rename_i hcontains
          have : id ∈ ids := by simpa using hcontains
          constructor
          · exact .inl
          · rintro (hother | rfl)
            · exact hother
            · exact this
        · simp
      refine ⟨?_, fun key' hkey' => ?_, fun id' hid' => ?_⟩
      · split
        · exact hids'.nodup
        · rename_i hcontains
          refine Nodup.append hids'.nodup (nodup_singleton _) ?_
          simpa using hcontains
      · rcases mem_append.mp hkey' with hkey' | hkey'
        · obtain ⟨id', hid', hlookup'⟩ := hids'.complete key' hkey'
          exact ⟨id', (hmem id').mpr (.inl hid'), hlookup'⟩
        · obtain rfl := mem_singleton.mp hkey'
          exact ⟨id, (hmem id).mpr (.inr rfl), hget⟩
      · rcases (hmem id').mp hid' with hid' | rfl
        · obtain ⟨key', hkey', hlookup'⟩ := hids'.sound id' hid'
          exact ⟨key', mem_append_left _ hkey', hlookup'⟩
        · exact ⟨key, by simp, hget⟩
    obtain ⟨hholds', hextends', hdenotes⟩ := ih hholds hnext
    refine ⟨hholds', hext.trans hextends', ?_⟩
    rwa [append_assoc, singleton_append] at hdenotes

theorem denotes_nil (table : PostingTable Key) : table.Denotes [] [] :=
  ⟨.nil, nofun, nofun⟩

/-! ## Pushing -/

theorem getElem?_foldl_modify (f : HotPostingList → HotPostingList) (hnodup : ids.Nodup)
    (posts : List HotPostingList) (id : Nat) :
    (ids.foldl (fun posts id => posts.modify id f) posts)[id]? =
      if id ∈ ids then (posts[id]?).map f else posts[id]? := by
  induction ids generalizing posts with
  | nil => simp
  | cons head ids ih =>
    rw [nodup_cons] at hnodup
    rw [foldl_cons, ih hnodup.2]
    by_cases heq : id = head
    · subst heq
      rw [if_neg hnodup.1, if_pos mem_cons_self, getElem?_modify_eq]
      rfl
    · have hmem : id ∈ head :: ids ↔ id ∈ ids := by simp [heq]
      rw [getElem?_modify_ne f _ (Ne.symm heq)]
      simp only [hmem]

theorem length_foldl_modify (f : HotPostingList → HotPostingList) (ids : List Nat)
    (posts : List HotPostingList) :
    (ids.foldl (fun posts id => posts.modify id f) posts).length = posts.length := by
  induction ids generalizing posts with
  | nil => rfl
  | cons head ids ih => rw [foldl_cons, ih, length_modify]

theorem range_filter_split (h : count ≤ count') :
    (range count').filter p = (range count).filter p ++
      (range' count (count' - count)).filter p := by
  have hrange : range count' = range count ++ range' count (count' - count) := by
    have hcount : count' = count + (count' - count) := by omega
    rw [range_eq_range', range_eq_range', hcount, ← range'_append_1, Nat.zero_add, ← hcount]
  rw [hrange, filter_append]

/-- Pushing the next ordinals to the lists of the keys that they have. -/
theorem Holds.pushRange (h : table.Holds has count) (hids : table.Denotes ids keys)
    (hlast : count ≤ last) (hold : ∀ key, ∀ ord < count, has' key ord = has key ord)
    (hnew : ∀ key ord, count ≤ ord → ord ≤ last → has' key ord = decide (key ∈ keys)) :
    (table.pushRange ids count last).Holds has' (last + 1) := by
  have hmem : ∀ key id, table.ids.lookup key = some id → (id ∈ ids ↔ key ∈ keys) := by
    intro key id hget
    constructor
    · intro hid
      obtain ⟨key', hkey', hlookup'⟩ := hids.sound id hid
      rwa [h.injective key key' id hget hlookup']
    · intro hkey
      obtain ⟨id', hid', hlookup'⟩ := hids.complete key hkey
      rw [hget] at hlookup'
      cases hlookup'
      exact hid'
  -- above the count the relation is decided by the keys
  have hrange : ∀ key, (range (last + 1)).filter (has' key) =
      (range count).filter (has key) ++
        if key ∈ keys then ordinalsBetween count last else [] := by
    intro key
    rw [range_filter_split (Nat.le_succ_of_le hlast)]
    congr 1
    · exact filter_congr fun ord hordinal => hold key ord (mem_range.mp hordinal)
    · have hfilter : (range' count (last + 1 - count)).filter (has' key) =
          (range' count (last + 1 - count)).filter fun _ => decide (key ∈ keys) := by
        refine filter_congr fun ord hordinal => ?_
        rw [mem_range'_1] at hordinal
        exact hnew key ord hordinal.1 (by omega)
      rw [hfilter]
      by_cases hkey : key ∈ keys <;> simp [hkey, ordinalsBetween]
  refine ⟨fun key id hget => ?_, h.injective, fun key id list hget hlist =>
    ?_, fun key hget ord hlt => ?_⟩
  · rw [PostingTable.pushRange, length_foldl_modify]
    exact h.bound key id hget
  · simp only [PostingTable.pushRange] at hget hlist
    rw [getElem?_foldl_modify _ hids.nodup] at hlist
    rw [hrange]
    by_cases hkey : key ∈ keys
    · rw [if_pos ((hmem key id hget).mpr hkey)] at hlist
      obtain ⟨list', hlist', rfl⟩ := Option.map_eq_some_iff.mp hlist
      obtain ⟨hok, hordinals⟩ := h.posting key id list' hget hlist'
      rw [if_pos hkey, ← hordinals]
      refine hok.pushRange hlast fun ord hordinal => ?_
      rw [hordinals] at hordinal
      exact mem_range.mp (mem_of_mem_filter hordinal)
    · rw [if_neg (fun hid => hkey ((hmem key id hget).mp hid))] at hlist
      rw [if_neg hkey, append_nil]
      exact h.posting key id list hget hlist
  · by_cases hcount : ord < count
    · rw [hold key ord hcount]
      exact h.absent key hget ord hcount
    · rw [hnew key ord (Nat.le_of_not_lt hcount) (Nat.le_of_lt_succ hlt)]
      refine decide_eq_false fun hkey => ?_
      obtain ⟨id, -, hid⟩ := hids.complete key hkey
      exact Option.some_ne_none id (hid.symm.trans hget)

end PostingTable

end ShardTelemetry.Stripe
