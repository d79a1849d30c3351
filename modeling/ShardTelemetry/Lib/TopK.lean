import Mathlib.Algebra.Order.Ring.Nat
import Mathlib.Data.List.Sort

/-!
# The first elements of a collection, up to ties

`IsTop r limit all page` says that `page` is a choice of the first `limit` elements of `all` in an
order that may leave elements at the same place.

A collection spread over several parts is often searched by taking only the first elements of each,
and more of them in another turn if the page is short (`Gathered`).  `forall_isTop_iff` says when
whatever comes first among the elements that were taken comes first among those that were asked for:
when every element up to the last place of the page is one of those, and none of those is missing
before it (`Covers`).
-/

namespace TopK

open List

variable {α : Type} (r : α → α → Prop) [DecidableRel r]

/-- A choice of the first elements, in order. -/
structure IsTop (limit : Nat) (all page : List α) : Prop where
  pairwise : page.Pairwise r
  length : page.length = min limit all.length
  chosen : ∃ rest, (page ++ rest).Perm all ∧ ∀ a ∈ page, ∀ b ∈ rest, r a b

/-- Not behind `t`. -/
def upTo (t a : α) : Bool := r a t

/-- Strictly before `t`. -/
def before (t a : α) : Bool := r a t && !decide (r t a)

/-- The element `t` is at the place `rank`, counted from one. -/
structure Ranks (rank : Nat) (all : List α) (t : α) : Prop where
  fewer : all.countP (before r t) < rank
  enough : rank ≤ all.countP (upTo r t)

/-- Of the elements that were taken, those up to the last place of a page are asked for, and nothing
that is asked for is missing before it. -/
structure Covers (asked : α → Bool) (limit : Nat) (taken all : List α) : Prop where
  length : min limit all.length = min limit taken.length
  accepted : ∀ t, Ranks r (min limit taken.length) taken t → ∀ a ∈ taken, r a t → asked a = true
  complete : ∀ t, Ranks r (min limit taken.length) taken t →
    all.countP (before r t) = taken.countP (before r t)

/-- The first elements of each part. -/
def taken (budget : Nat) (parts : List (List α)) : List α := parts.flatMap (take budget)

/-- What is not taken of the parts. -/
def untaken (budget : Nat) (parts : List (List α)) : List α := parts.flatMap (drop budget)

/-- The page is full for the first time in the given turn, when every part gives its first
`share * 2 ^ turn` elements. -/
structure FirstFull (limit share : Nat) (parts : List (List α)) (turn : Nat) : Prop where
  full : limit ≤ (taken (share * 2 ^ turn) parts).length
  earlier : ∀ before < turn, (taken (share * 2 ^ before) parts).length < limit

/-- What a search has taken that doubles the budget until the page is full: what fills the page for
the first time, or everything. -/
inductive Gathered (limit share : Nat) (parts : List (List α)) : List α → Prop
  | full {turn} (h : FirstFull limit share parts turn) :
    Gathered limit share parts (taken (share * 2 ^ turn) parts)
  | short (h : parts.flatten.length < limit) : Gathered limit share parts parts.flatten

variable {r} {rank budget limit share : Nat} {all page sorted gathered : List α}
  {parts : List (List α)} {t a b : α} {asked : α → Bool}

/-- What is asked for covers itself. -/
theorem Covers.refl (h : ∀ a ∈ all, asked a = true) : Covers r asked limit all all :=
  ⟨rfl, fun _ _ a ha _ => h a ha, fun _ _ => rfl⟩

@[simp] theorem upTo_iff : upTo r t a = true ↔ r a t := by simp [upTo]

@[simp] theorem before_iff : before r t a = true ↔ r a t ∧ ¬ r t a := by simp [before]

theorem taken_append_untaken_perm (budget : Nat) (parts : List (List α)) :
    (taken budget parts ++ untaken budget parts).Perm parts.flatten := by
  induction parts with
  | nil => exact .nil
  | cons part parts ih =>
    have hsplit : (part.take budget ++ part.drop budget).Perm part := by
      rw [take_append_drop]
    have hpart : (taken budget (part :: parts) ++ untaken budget (part :: parts)).Perm
        ((part.take budget ++ part.drop budget) ++
          (taken budget parts ++ untaken budget parts)) := by
      simp only [taken, untaken, flatMap_cons, append_assoc]
      exact (perm_append_left_iff _).mpr (perm_append_comm_assoc ..)
    exact hpart.trans (hsplit.append ih)

/-- If every part is shorter than the budget, everything is taken. -/
theorem taken_eq_flatten (h : ∀ part ∈ parts, part.length ≤ budget) :
    taken budget parts = parts.flatten := by
  induction parts with
  | nil => rfl
  | cons part parts ih =>
    have hpart : part.take budget = part := take_of_length_le (h part mem_cons_self)
    have hparts := ih (forall_mem_cons.mp h).2
    rw [taken, flatMap_cons, hpart, ← taken, hparts, flatten_cons]

theorem length_taken_le (budget : Nat) (parts : List (List α)) :
    (taken budget parts).length ≤ parts.flatten.length := by
  rw [← (taken_append_untaken_perm budget parts).length_eq, length_append]
  exact Nat.le_add_right ..

/-! ## Doubling the budget -/

/-- A page is filled for the first time only once. -/
theorem FirstFull.unique {share turn turn' : Nat} (h : FirstFull limit share parts turn)
    (h' : FirstFull limit share parts turn') : turn = turn' := by
  rcases Nat.lt_trichotomy turn turn' with hlt | heq | hlt
  · exact absurd (h'.earlier turn hlt) (Nat.not_lt.mpr h.full)
  · exact heq
  · exact absurd (h.earlier turn' hlt) (Nat.not_lt.mpr h'.full)

namespace Gathered

theorem unique {other : List α} (h : Gathered limit share parts gathered)
    (h' : Gathered limit share parts other) : gathered = other := by
  cases h with
  | full h =>
    cases h' with
    | full h' => rw [h.unique h']
    | short h' => exact absurd (h.full.trans (length_taken_le ..)) (Nat.not_le.mpr h')
  | short h =>
    cases h' with
    | full h' => exact absurd (h'.full.trans (length_taken_le ..)) (Nat.not_le.mpr h)
    | short h' => rfl

/-- The search stops when the page is full or every part is exhausted. -/
theorem of_stop {turn : Nat}
    (hstop : limit ≤ (taken (share * 2 ^ turn) parts).length ∨
      ∀ part ∈ parts, part.length < share * 2 ^ turn)
    (hearlier : ∀ before < turn, (taken (share * 2 ^ before) parts).length < limit) :
    Gathered limit share parts (taken (share * 2 ^ turn) parts) := by
  rcases Nat.lt_or_ge (taken (share * 2 ^ turn) parts).length limit with hshort | hfull
  · have hall := hstop.resolve_left (Nat.not_le.mpr hshort)
    have htaken := taken_eq_flatten fun part hpart => (hall part hpart).le
    rw [htaken] at hshort ⊢
    exact .short hshort
  · exact .full ⟨hfull, hearlier⟩

/-- Parts that are not longer than the first budget are gathered as a whole. -/
theorem eq_flatten (h : Gathered limit share parts gathered)
    (hshare : ∀ part ∈ parts, part.length ≤ share) : gathered = parts.flatten := by
  cases h with
  | @full turn h =>
    exact taken_eq_flatten fun part hpart => (hshare part hpart).trans
      (Nat.le_mul_of_pos_right share (Nat.two_pow_pos turn))
  | short h => rfl

/-- Nothing is gathered that is not in a part. -/
theorem exists_rest (h : Gathered limit share parts gathered) :
    ∃ rest, (gathered ++ rest).Perm parts.flatten := by
  cases h with
  | full h => exact ⟨_, taken_append_untaken_perm ..⟩
  | short h => exact ⟨[], by rw [append_nil]⟩

end Gathered

section Order

variable [Std.Total r] [IsTrans α r]

omit [IsTrans α r] in
theorem upTo_of_not_before (h : ¬ before r t a = true) : r t a := by
  rw [before_iff, not_and_not_right] at h
  rcases Std.Total.total (r := r) a t with hle | hge
  · exact h hle
  · exact hge

/-- Some element is at every place of the collection. -/
theorem exists_ranks (hpos : 0 < rank) (hle : rank ≤ all.length) : ∃ t, Ranks r rank all t := by
  have hperm := perm_insertionSort r all
  have hsorted := pairwise_insertionSort r all
  have hlength : (all.insertionSort r).length = all.length := hperm.length_eq
  generalize all.insertionSort r = sorted at hperm hsorted hlength
  obtain ⟨t, hget⟩ : ∃ t, sorted[rank - 1]? = some t :=
    ⟨_, getElem?_eq_getElem (by omega)⟩
  have hsplit : sorted = sorted.take (rank - 1) ++ t :: sorted.drop rank := by
    conv_lhs => rw [← take_append_drop (rank - 1) sorted]
    obtain ⟨hlt, hget⟩ := List.getElem?_eq_some_iff.mp hget
    rw [drop_eq_getElem_cons hlt, hget, Nat.sub_add_cancel hpos]
  have htake : (sorted.take (rank - 1)).length = rank - 1 := by
    rw [length_take]
    omega
  rw [hsplit, pairwise_append, pairwise_cons] at hsorted
  obtain ⟨-, ⟨hafter, -⟩, hbefore⟩ := hsorted
  refine ⟨t, ?_, ?_⟩
  · -- only what stands before `t` can be strictly before it
    rw [← hperm.countP_eq, hsplit, countP_append]
    have hzero : (t :: sorted.drop rank).countP (before r t) = 0 := by
      rw [countP_eq_zero]
      intro a hmem
      rcases mem_cons.mp hmem with rfl | hmem
      · simp
      · simp [hafter a hmem]
    have hle := countP_le_length (p := before r t) (l := sorted.take (rank - 1))
    omega
  · rw [← hperm.countP_eq, hsplit, countP_append]
    have hall : (sorted.take (rank - 1)).countP (upTo r t) = rank - 1 := by
      rw [countP_eq_length.mpr, htake]
      intro a hmem
      exact upTo_iff.mpr (hbefore a hmem t mem_cons_self)
    have hself : upTo r t t = true := upTo_iff.mpr ((Std.Total.total (r := r) t t).elim id id)
    rw [hall, countP_cons, hself]
    simp only [if_true]
    omega

section

omit [Std.Total r]

/-- If not everything on the page is strictly before `t`, nothing that is strictly before it is
missing. -/
theorem IsTop.countP_eq (htop : IsTop r limit all page)
    (hfewer : page.countP (before r t) < page.length) :
    all.countP (before r t) = page.countP (before r t) := by
  obtain ⟨left, hperm, hafter⟩ := htop.chosen
  rw [← hperm.countP_eq, countP_append]
  suffices hzero : left.countP (before r t) = 0 by rw [hzero, Nat.add_zero]
  rw [countP_eq_zero]
  intro b hb hbefore
  obtain ⟨hle, hnot⟩ := before_iff.mp hbefore
  refine absurd (countP_eq_length.mpr fun a ha => ?_) hfewer.ne
  have hab := hafter a ha b hb
  exact before_iff.mpr ⟨IsTrans.trans _ _ _ hab hle, fun hta => hnot (IsTrans.trans _ _ _ hta hab)⟩

/-- Everything strictly before the last place is on the page, and everything on the page is up to
it. -/
theorem IsTop.of_ranks (h : IsTop r limit all page)
    (hranks : Ranks r (min limit all.length) all t) :
    all.countP (before r t) = page.countP (before r t) ∧ ∀ a ∈ page, r a t := by
  obtain ⟨rest, hperm, hrest⟩ := h.chosen
  have hfewer := hranks.fewer
  have henough := hranks.enough
  rw [← h.length] at hfewer henough
  constructor
  · refine h.countP_eq (lt_of_le_of_lt ?_ hfewer)
    rw [← hperm.countP_eq]
    exact (sublist_append_left ..).countP_le
  · intro a ha
    by_contra hne
    -- what is not on the page is behind `a`, and so behind `t`
    have hzero : rest.countP (upTo r t) = 0 := by
      rw [countP_eq_zero]
      intro b hb hup
      exact hne (IsTrans.trans _ _ _ (hrest a ha b hb) (upTo_iff.mp hup))
    have hlt : page.countP (upTo r t) < page.length := by
      refine lt_of_le_of_ne (countP_le_length ..) fun heq => hne ?_
      exact upTo_iff.mp (countP_eq_length.mp heq a ha)
    rw [← hperm.countP_eq, countP_append] at henough
    omega

end

omit [DecidableRel r] [Std.Total r] [IsTrans α r] in
/-- The first elements of a list in order. -/
theorem isTop_take (hsorted : sorted.Pairwise r) (hperm : sorted.Perm all) (limit : Nat) :
    IsTop r limit all (sorted.take limit) := by
  refine ⟨hsorted.sublist (take_sublist ..), by rw [length_take, hperm.length_eq],
    sorted.drop limit, ?_, ?_⟩
  · rw [take_append_drop]
    exact hperm
  · rw [← take_append_drop limit sorted, pairwise_append] at hsorted
    exact hsorted.2.2

/-- Every page is the beginning of the whole collection in some order. -/
theorem IsTop.exists_sorted (h : IsTop r limit all page) :
    ∃ sorted : List α, sorted.Perm all ∧ sorted.Pairwise r ∧ sorted.take limit = page := by
  obtain ⟨rest, hperm, hrest⟩ := h.chosen
  refine ⟨page ++ rest.insertionSort r, ((perm_insertionSort r rest).append_left page).trans hperm,
    pairwise_append.mpr ⟨h.pairwise, pairwise_insertionSort r rest, fun a ha b hb =>
      hrest a ha b ((mem_insertionSort r).mp hb)⟩, ?_⟩
  have hlength := h.length
  rw [← hperm.length_eq, length_append] at hlength
  rcases Nat.lt_or_ge page.length limit with hshort | hlong
  · obtain rfl : rest = [] := length_eq_zero_iff.mp (by omega)
    rw [insertionSort_nil, append_nil, take_of_length_le hshort.le]
  · exact take_left' (by omega)

/-- Whatever is not behind the last place is on some page. -/
theorem exists_isTop_of_ranks (hranks : Ranks r (min limit all.length) all t) (hmem : a ∈ all)
    (hle : r a t) : ∃ page, IsTop r limit all page ∧ a ∈ page := by
  obtain ⟨front, behind, rfl⟩ := append_of_mem hmem
  -- among the elements of its place, `a` comes first
  have hperm : ((a :: (front ++ behind)).insertionSort r).Perm (front ++ a :: behind) :=
    (perm_insertionSort r _).trans perm_middle.symm
  refine ⟨_, isTop_take (pairwise_insertionSort r _) hperm limit, ?_⟩
  have hbefore :
      ∀ b ∈ ((front ++ behind).insertionSort r).takeWhile (¬ r a ·), before r t b = true := by
    intro b hb
    have hnot : ¬ r a b := by simpa using all_eq_true.mp all_takeWhile b hb
    refine before_iff.mpr ⟨?_, fun htb => hnot (IsTrans.trans _ _ _ hle htb)⟩
    exact IsTrans.trans _ _ _ ((Std.Total.total (r := r) b a).resolve_right hnot) hle
  have hfewer : (((front ++ behind).insertionSort r).takeWhile (¬ r a ·)).length < limit := by
    rw [← countP_eq_length.mpr hbefore]
    refine lt_of_le_of_lt ?_ (lt_of_lt_of_le hranks.fewer (Nat.min_le_left ..))
    rw [← hperm.countP_eq]
    exact ((takeWhile_sublist _).trans (sublist_orderedInsert ..)).countP_le
  obtain ⟨more, hmore⟩ := Nat.exists_eq_add_of_lt hfewer
  rw [insertionSort_cons, orderedInsert_eq_take_drop, take_append, hmore]
  refine mem_append_right _ ?_
  rw [Nat.add_assoc, Nat.add_sub_cancel_left, take_succ_cons]
  exact mem_cons_self

section

variable {eligible rest : List α} (hsplit : (gathered ++ rest).Perm eligible)
include hsplit

/-- A page of the elements that were taken is one of those that are asked for. -/
theorem Covers.isTop (h : Covers r asked limit gathered (eligible.filter asked))
    (htop : IsTop r limit gathered page) : IsTop r limit (eligible.filter asked) page := by
  obtain ⟨left, hperm, -⟩ := htop.chosen
  rcases Nat.eq_zero_or_pos (min limit gathered.length) with hzero | hpos
  · obtain rfl : page = [] := length_eq_zero_iff.mp (htop.length.trans hzero)
    exact ⟨.nil, by rw [h.length, hzero, length_nil], _, .refl _, nofun⟩
  obtain ⟨t, hranks⟩ := exists_ranks (r := r) hpos (Nat.min_le_right ..)
  obtain ⟨hcount, hup⟩ := htop.of_ranks hranks
  have hsub : ∀ a ∈ page, a ∈ gathered := fun a ha => hperm.subset (mem_append_left _ ha)
  have hpage : page.filter asked = page := filter_eq_self.mpr fun a ha =>
    h.accepted t hranks a (hsub a ha) (hup a ha)
  have hall : (page ++ (left ++ rest).filter asked).Perm (eligible.filter asked) := by
    rw [← hpage, ← filter_append, ← append_assoc]
    exact ((hperm.append_right rest).trans hsplit).filter asked
  refine ⟨htop.pairwise, htop.length.trans h.length.symm, _, hall, fun a ha b hb => ?_⟩
  have hzero : ((left ++ rest).filter asked).countP (before r t) = 0 := by
    have hsum := h.complete t hranks
    rw [← hall.countP_eq, countP_append, hcount] at hsum
    omega
  exact IsTrans.trans _ _ _ (hup a ha) (upTo_of_not_before (countP_eq_zero.mp hzero b hb))

/-- When every page of the elements that were taken is a page of those that are asked for. -/
theorem forall_isTop_iff :
    (∀ page, IsTop r limit gathered page → IsTop r limit (eligible.filter asked) page) ↔
      Covers r asked limit gathered (eligible.filter asked) := by
  refine ⟨fun h => ⟨?_, fun t hranks a ha hle => ?_, fun t hranks => ?_⟩, fun h page =>
    h.isTop hsplit⟩
  · have htop := isTop_take (pairwise_insertionSort r gathered)
      (perm_insertionSort r gathered) limit
    rw [← (h _ htop).length, htop.length]
  · obtain ⟨page, htop, hmem⟩ := exists_isTop_of_ranks hranks ha hle
    obtain ⟨left, hperm, -⟩ := (h page htop).chosen
    exact (mem_filter.mp (hperm.subset (mem_append_left _ hmem))).2
  · have htop := isTop_take (pairwise_insertionSort r gathered)
      (perm_insertionSort r gathered) limit
    obtain ⟨hcount, -⟩ := htop.of_ranks hranks
    have hfewer := hranks.fewer
    rw [hcount, ← htop.length] at hfewer
    rw [hcount, (h _ htop).countP_eq hfewer]

end

end Order

end TopK
