import Mathlib.Data.List.Dedup
import Mathlib.Data.List.Sort

/-!
# The least elements of a collection

A result is collected in pieces: after each piece `settle` sorts the list, drops duplicates, cuts it
to what comes after a given element and truncates it.  It sees a list as the set of its members
(`settle_congr`), and settling in between loses nothing (`settle_settle_append`), so a loop over the
pieces settles them all at once (`settle_foldl`).
-/

namespace Settle

open List

variable {α : Type} [LinearOrder α]

/-- The members that come after a given element, in increasing order. -/
def increasing (after : Option α) (l : List α) : List α :=
  (l.insertionSort (· ≤ ·)).dedup.filter fun a => after.all (· < a)

/-- The least of them. -/
def settle (after : Option α) (limit : Nat) (l : List α) : List α := (increasing after l).take limit

variable {after : Option α} {limit : Nat} {l l' : List α} {a : α}

theorem mem_increasing : a ∈ increasing after l ↔ a ∈ l ∧ after.all (· < a) = true := by
  unfold increasing
  rw [mem_filter, mem_dedup, mem_insertionSort]

theorem pairwise_increasing (after : Option α) (l : List α) :
    (increasing after l).Pairwise (· < ·) := by
  have sorted : ((l.insertionSort (· ≤ ·)).dedup).Pairwise (· ≤ ·) :=
    (pairwise_insertionSort (· ≤ ·) l).sublist (dedup_sublist _)
  have distinct : ((l.insertionSort (· ≤ ·)).dedup).Pairwise (· ≠ ·) := nodup_dedup _
  have strict := sorted.and distinct
  exact (strict.imp fun h => lt_of_le_of_ne h.1 h.2).filter _

/-- An increasing list is known by its members. -/
theorem eq_of_increasing (h : l.Pairwise (· < ·)) (h' : l'.Pairwise (· < ·))
    (members : ∀ a, a ∈ l ↔ a ∈ l') : l = l' := by
  have perm : l.Perm l' := (perm_ext_iff_of_nodup (h.imp ne_of_lt) (h'.imp ne_of_lt)).mpr members
  exact perm.eq_of_pairwise' (h.imp le_of_lt) (h'.imp le_of_lt)

/-- Only the members that come after the given element matter. -/
theorem settle_congr (members : ∀ a, after.all (· < a) = true → (a ∈ l ↔ a ∈ l')) :
    settle after limit l = settle after limit l' := by
  have same : increasing after l = increasing after l' := by
    refine eq_of_increasing (pairwise_increasing after l) (pairwise_increasing after l') fun a => ?_
    rw [mem_increasing, mem_increasing]
    exact and_congr_left fun later => members a later
  unfold settle
  rw [same]

/-- A list that has the members after the given element in order is cut at the limit only. -/
theorem take_eq_settle (h : l.Pairwise (· < ·))
    (members : ∀ a, a ∈ l ↔ a ∈ l' ∧ after.all (· < a) = true) :
    l.take limit = settle after limit l' := by
  unfold settle
  rw [eq_of_increasing h (pairwise_increasing after l') fun a => by rw [members, mem_increasing]]

/-- Nothing that comes after the given element leaves nothing. -/
theorem settle_eq_nil (none : ∀ a ∈ l, ¬ after.all (· < a) = true) :
    settle after limit l = [] := by
  have empty : increasing after l = [] := by
    refine eq_nil_iff_forall_not_mem.mpr fun a mem => ?_
    obtain ⟨member, later⟩ := mem_increasing.mp mem
    exact none a member later
  unfold settle
  rw [empty, take_nil]

theorem mem_of_mem_settle (h : a ∈ settle after limit l) : a ∈ l :=
  (mem_increasing.mp (mem_of_mem_take h)).1

/-- A limit that no list of these members exceeds keeps them all. -/
theorem mem_settle_of_length (room : l.length ≤ limit) : a ∈ settle none limit l ↔ a ∈ l := by
  have fits : (increasing none l).length ≤ limit := by
    refine le_trans ?_ room
    rw [← length_insertionSort (· ≤ ·) l]
    exact (filter_sublist.trans (dedup_sublist _)).length_le
  unfold settle
  rw [take_of_length_le fits, mem_increasing]
  exact and_iff_left rfl

/-- Fewer elements than its place precede an element of an increasing list. -/
theorem not_mem_take {sorted least : List α} (h : sorted.Pairwise (· < ·)) (distinct : least.Nodup)
    (full : limit ≤ least.length) (within : ∀ b ∈ least, b ∈ sorted) (above : ∀ b ∈ least, b < a) :
    a ∉ sorted.take limit := by
  intro mem
  -- the least elements are all in the part of the list before the place of `a`
  obtain ⟨place, lt, eq⟩ := getElem_of_mem mem
  rw [length_take] at lt
  rw [getElem_take] at eq
  have before : ∀ b ∈ least, b ∈ sorted.take place := by
    intro b hb
    obtain ⟨i, hi, rfl⟩ := getElem_of_mem (within b hb)
    have lower : sorted[i] < sorted[place] := eq ▸ above _ hb
    have ix : i < place := by
      by_contra ge
      obtain rfl | gt := (Nat.not_lt.mp ge).eq_or_lt
      · exact lt_irrefl _ lower
      · exact lt_asymm lower (pairwise_iff_getElem.mp h place i (by omega) hi gt)
    rw [mem_take_iff_getElem]
    exact ⟨i, by omega, rfl⟩
  have bound := (subperm_of_subset distinct before).length_le
  rw [length_take] at bound
  omega

/-- What settling the first part drops has enough elements before it. -/
theorem mem_increasing_settle_append {m : List α}
    (mem : a ∈ (increasing after (l ++ m)).take limit) :
    a ∈ increasing after (settle after limit l ++ m) := by
  obtain ⟨member, later⟩ := mem_increasing.mp (mem_of_mem_take mem)
  by_contra lost
  have dropped : a ∉ settle after limit l ++ m :=
    fun member => lost (mem_increasing.mpr ⟨member, later⟩)
  rw [mem_append, not_or] at dropped
  have first : a ∈ increasing after l :=
    mem_increasing.mpr ⟨(mem_append.mp member).resolve_right dropped.2, later⟩
  have strict := pairwise_increasing after l
  rw [← take_append_drop limit (increasing after l)] at first strict
  have rest := (mem_append.mp first).resolve_left dropped.1
  have full : limit ≤ ((increasing after l).take limit).length := by
    have long : limit < (increasing after l).length := by
      by_contra short
      rw [drop_eq_nil_of_le (Nat.not_lt.mp short)] at rest
      exact not_mem_nil rest
    rw [length_take]
    omega
  refine not_mem_take (pairwise_increasing after (l ++ m))
    ((pairwise_increasing after l).imp ne_of_lt |>.sublist (take_sublist limit _)) full ?_ ?_ mem
  · intro b mem
    obtain ⟨member, later⟩ := mem_increasing.mp (mem_of_mem_take mem)
    exact mem_increasing.mpr ⟨mem_append_left _ member, later⟩
  · intro b mem
    exact (pairwise_append.mp strict).2.2 b mem a rest

/-- A part of an increasing list that has its first elements has the same first elements. -/
theorem take_eq_of_increasing {part whole : List α} (h : part.Pairwise (· < ·))
    (h' : whole.Pairwise (· < ·)) (subset : ∀ a ∈ part, a ∈ whole)
    (kept : ∀ a ∈ whole.take limit, a ∈ part) : part.take limit = whole.take limit := by
  have filtered : part = whole.filter fun a => a ∈ part := by
    refine eq_of_increasing h (h'.filter _) fun a => ?_
    rw [mem_filter, decide_eq_true_eq]
    exact ⟨fun mem => ⟨subset a mem, mem⟩, fun h => h.2⟩
  have split : part = whole.take limit ++ (whole.drop limit).filter fun a => a ∈ part := by
    conv_lhs => rw [filtered, ← take_append_drop limit whole, filter_append]
    congr 1
    exact filter_eq_self.mpr fun a mem => decide_eq_true (kept a mem)
  rw [split]
  by_cases long : limit ≤ whole.length
  · rw [take_append_of_le_length (by rw [length_take]; omega), take_take, Nat.min_self]
  · rw [drop_eq_nil_of_le (by omega), filter_nil, append_nil, take_take, Nat.min_self]

/-- Settling the first part before the second one is there changes nothing. -/
theorem settle_settle_append (after : Option α) (limit : Nat) (l l' : List α) :
    settle after limit (settle after limit l ++ l') = settle after limit (l ++ l') := by
  refine take_eq_of_increasing (pairwise_increasing _ _) (pairwise_increasing _ _) ?_
    fun a => mem_increasing_settle_append
  intro a mem
  obtain ⟨mem, later⟩ := mem_increasing.mp mem
  refine mem_increasing.mpr ⟨mem_append.mpr ?_, later⟩
  exact (mem_append.mp mem).imp mem_of_mem_settle id

/-- A loop that settles after every piece. -/
theorem settle_foldl {β : Type} (after : Option α) (limit : Nat) (piece : β → List α)
    (pieces : List β) (start : List α) :
    settle after limit (pieces.foldl (fun l b => settle after limit (l ++ piece b)) start) =
      settle after limit (start ++ pieces.flatMap piece) := by
  induction pieces generalizing start with
  | nil => rw [foldl_nil, flatMap_nil, append_nil]
  | cons b pieces ih =>
    rw [foldl_cons, ih, settle_settle_append, flatMap_cons, append_assoc]

/-- Of each part only what it settles to matters. -/
theorem settle_append_congr {m m' : List α} (h : settle after limit l = settle after limit l')
    (h' : settle after limit m = settle after limit m') :
    settle after limit (l ++ m) = settle after limit (l' ++ m') := by
  have comm :
      ∀ l m : List α, settle after limit (l ++ m) = settle after limit (m ++ l) := fun l m =>
    settle_congr fun a _ => by rw [mem_append, mem_append, or_comm]
  rw [← settle_settle_append, h, settle_settle_append, comm, ← settle_settle_append, h',
    settle_settle_append, comm]

theorem settle_flatMap_congr {β : Type} {pieces : List β} {f g : β → List α}
    (h : ∀ b ∈ pieces, settle after limit (f b) = settle after limit (g b)) :
    settle after limit (pieces.flatMap f) = settle after limit (pieces.flatMap g) := by
  induction pieces with
  | nil => rfl
  | cons b pieces ih =>
    obtain ⟨first, rest⟩ := forall_mem_cons.mp h
    rw [flatMap_cons, flatMap_cons]
    exact settle_append_congr first (ih rest)

theorem settle_settle (after : Option α) (limit : Nat) (l : List α) :
    settle after limit (settle after limit l) = settle after limit l := by
  have h := settle_settle_append after limit l []
  rwa [append_nil, append_nil] at h

end Settle
