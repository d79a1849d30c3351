import Mathlib.Data.List.Sort

/-!
# The first elements of a collection in an order

`page r limit l` is what a query with a limit answers: the elements of `l` in the order `r`, up to
the limit.  The order is total and transitive, and antisymmetric on the elements at hand, so how
they were arranged does not matter.

When is the page of the elements that meet a condition the page of all of them
(`page_filter_eq_iff`)? And when is a list that is merely cut at the limit already its own page
(`upTo_eq_page_iff`)?
-/

namespace Page

open List

variable {α : Type}

/-- The list up to a limit, if there is one. -/
def upTo (limit : Option Nat) (l : List α) : List α :=
  match limit with
  | none => l
  | some n => l.take n

/-- What is after the limit. -/
def rest (limit : Option Nat) (l : List α) : List α :=
  match limit with
  | none => []
  | some n => l.drop n

@[simp] theorem upTo_none (l : List α) : upTo none l = l := rfl

@[simp] theorem upTo_some (n : Nat) (l : List α) : upTo (some n) l = l.take n := rfl

theorem upTo_append_rest (limit : Option Nat) (l : List α) : upTo limit l ++ rest limit l = l := by
  cases limit with
  | none => exact append_nil l
  | some n => exact take_append_drop n l

/-- What is before the limit stays when something else follows it. -/
theorem upTo_append_of_rest {limit : Option Nat} {l l' : List α} (h : rest limit l = [] → l' = []) :
    upTo limit (upTo limit l ++ l') = upTo limit l := by
  cases limit with
  | none => rw [h rfl, upTo_none, upTo_none, append_nil]
  | some n =>
    simp only [upTo_some]
    rcases Nat.lt_or_ge l.length n with hshort | hlong
    · rw [h (drop_eq_nil_of_le hshort.le), append_nil, take_take, Nat.min_self]
    · rw [take_append_of_le_length (by rw [length_take]; omega), take_take, Nat.min_self]

theorem mem_of_mem_upTo {limit : Option Nat} {l : List α} {a : α} (h : a ∈ upTo limit l) :
    a ∈ l := by
  cases limit with
  | none => exact h
  | some n => exact mem_of_mem_take h

theorem upTo_upTo (limit : Option Nat) (l : List α) : upTo limit (upTo limit l) = upTo limit l := by
  cases limit with
  | none => rfl
  | some n => rw [upTo_some, upTo_some, take_take, Nat.min_self]

theorem map_upTo {β : Type} (f : α → β) (limit : Option Nat) (l : List α) :
    (upTo limit l).map f = upTo limit (l.map f) := by
  cases limit with
  | none => rfl
  | some n => exact map_take

section Page

variable (r : α → α → Prop) [DecidableRel r]

/-- The first elements in the order. -/
def page (limit : Option Nat) (l : List α) : List α := upTo limit (l.insertionSort r)

/-- The first of the least elements. -/
def minBy : List α → Option α
  | [] => none
  | a :: l => some (l.foldl (fun best b => if r best b then best else b) a)

theorem map_minBy {β : Type} (f : β → α) (l : List β) :
    (minBy (fun a b => r (f a) (f b)) l).map f = minBy r (l.map f) := by
  cases l with
  | nil => rfl
  | cons a l =>
    simp only [minBy, map_cons, Option.map_some, Option.some.injEq]
    induction l generalizing a with
    | nil => rfl
    | cons b l ih =>
      rw [map_cons, foldl_cons, foldl_cons, ih]
      split <;> rfl

variable {r} {limit : Option Nat} {l l' : List α}

/-- The order decides between any two elements of the list. -/
def Separates (r : α → α → Prop) (l : List α) : Prop := ∀ a ∈ l, ∀ b ∈ l, r a b → r b a → a = b

omit [DecidableRel r] in
theorem Separates.subset (h : Separates r l) (hsubset : l' ⊆ l) : Separates r l' :=
  fun a ha b hb => h a (hsubset ha) b (hsubset hb)

/-- A list in order is cut at the limit. -/
theorem page_of_pairwise (h : l.Pairwise r) : page r limit l = upTo limit l := by
  rw [page, h.insertionSort_eq]

theorem mem_of_mem_page {a : α} (h : a ∈ page r limit l) : a ∈ l :=
  (mem_insertionSort r).mp (mem_of_mem_upTo h)

/-- Every element before the limit precedes all later ones. -/
structure Leads (r : α → α → Prop) (limit : Option Nat) (l : List α) : Prop where
  pairwise : (upTo limit l).Pairwise r
  before : ∀ a ∈ upTo limit l, ∀ b ∈ rest limit l, r a b

variable [Std.Total r] [IsTrans α r]

omit [DecidableRel r] [Std.Total r] in
/-- A list whose neighbours are in order is in order. -/
theorem pairwise_of_neighbours (h : ∀ pair ∈ l.zip l.tail, r pair.1 pair.2) : l.Pairwise r := by
  induction l with
  | nil => exact .nil
  | cons a l ih =>
    cases l with
    | nil => exact pairwise_singleton _ _
    | cons b l =>
      simp only [tail_cons, zip_cons_cons, mem_cons, forall_eq_or_imp] at h ih
      have htail := ih h.2
      exact pairwise_cons.mpr ⟨forall_mem_cons.mpr
        ⟨h.1, fun c hc => IsTrans.trans _ _ _ h.1 (rel_of_pairwise_cons htail hc)⟩, htail⟩

theorem insertionSort_congr (hperm : l.Perm l') (hseparates : Separates r l) :
    l.insertionSort r = l'.insertionSort r := by
  refine Perm.eq_of_pairwise ?_ (pairwise_insertionSort r l) (pairwise_insertionSort r l')
    ((perm_insertionSort r l).trans (hperm.trans (perm_insertionSort r l').symm))
  intro a b ha hb
  exact hseparates a ((mem_insertionSort r).mp ha) b
    (hperm.mem_iff.mpr ((mem_insertionSort r).mp hb))

/-- A page does not depend on the arrangement. -/
theorem page_congr (hperm : l.Perm l') (hseparates : Separates r l) :
    page r limit l = page r limit l' := by
  rw [page, insertionSort_congr hperm hseparates, page]

theorem insertionSort_filter (hseparates : Separates r l) (p : α → Bool) :
    (l.filter p).insertionSort r = (l.insertionSort r).filter p := by
  refine Perm.eq_of_pairwise ?_ (pairwise_insertionSort r _) ((pairwise_insertionSort r l).filter p)
    ((perm_insertionSort r _).trans ((perm_insertionSort r l).symm.filter p))
  intro a b ha hb
  have ha := mem_of_mem_filter ((mem_insertionSort r).mp ha)
  have hb := (mem_insertionSort r).mp (mem_of_mem_filter hb)
  exact hseparates a ha b hb

omit [IsTrans α r] in
/-- In a list without ties, what is not before the last element of its beginning is the rest. -/
theorem filter_after_take {n : Nat} {last : α} (h : l.Pairwise fun a b => ¬ r b a)
    (hlast : (l.take n).getLast? = some last) : l.filter (fun a => ¬ r a last) = l.drop n := by
  obtain ⟨front, htake⟩ := getLast?_eq_some_iff.mp hlast
  rw [← take_append_drop n l, htake, pairwise_append, pairwise_append] at h
  obtain ⟨⟨-, -, hfront⟩, -, hrest⟩ := h
  conv_lhs => rw [← take_append_drop n l, htake, filter_append]
  rw [filter_eq_nil_iff.mpr, filter_eq_self.mpr, nil_append]
  · exact fun b hb => decide_eq_true (hrest last (mem_append_right _ mem_cons_self) b hb)
  · intro a ha
    rw [decide_eq_true_eq, not_not]
    rcases mem_append.mp ha with ha | ha
    · exact (Std.Total.total a last).resolve_right (hfront a ha last mem_cons_self)
    · rw [mem_singleton.mp ha]
      exact (Std.Total.total last last).elim id id

/-- A list in the opposite order is cut from its end. -/
theorem page_of_pairwise_reverse (h : l.reverse.Pairwise r) (hseparates : Separates r l) :
    page r limit l = upTo limit l.reverse := by
  rw [page_congr (reverse_perm l).symm hseparates, page_of_pairwise h]

/-- The elements that meet a condition have the page of all of them exactly if everything on that
page meets the condition. -/
theorem page_filter_eq_iff (hseparates : Separates r l) (p : α → Bool) :
    page r limit (l.filter p) = page r limit l ↔ ∀ a ∈ page r limit l, p a := by
  unfold page
  rw [insertionSort_filter hseparates]
  generalize l.insertionSort r = sorted
  constructor
  · intro h a ha
    rw [← h] at ha
    exact (mem_filter.mp (mem_of_mem_upTo ha)).2
  · intro h
    have hsplit : sorted.filter p = upTo limit sorted ++ (rest limit sorted).filter p := by
      conv_lhs => rw [← upTo_append_rest limit sorted, filter_append]
      rw [filter_eq_self.mpr h]
    rw [hsplit]
    exact upTo_append_of_rest fun hrest => by rw [hrest, filter_nil]

/-- A list that is cut at the limit is its own page exactly if what is before the limit leads. -/
theorem upTo_eq_page_iff (hseparates : Separates r l) :
    upTo limit l = page r limit l ↔ Leads r limit l := by
  have hsorted := pairwise_insertionSort r l
  have hperm := perm_insertionSort r l
  unfold page
  constructor
  · intro h
    have happend := hsorted
    rw [← upTo_append_rest limit (l.insertionSort r), ← h, pairwise_append] at happend
    -- what is not on the page is the same on both sides
    have hrest : (rest limit l).Perm (rest limit (l.insertionSort r)) := by
      rw [← perm_append_left_iff (upTo limit l), upTo_append_rest, h, upTo_append_rest]
      exact hperm.symm
    exact ⟨happend.1, fun a ha b hb => happend.2.2 a ha b (hrest.mem_iff.mp hb)⟩
  · intro h
    have hsort : l.insertionSort r = upTo limit l ++ (rest limit l).insertionSort r := by
      refine Perm.eq_of_pairwise ?_ hsorted ?_ ?_
      · intro a b ha hb
        refine hseparates a ((mem_insertionSort r).mp ha) b ?_
        rw [← upTo_append_rest limit l]
        simpa using hb
      · rw [pairwise_append]
        refine ⟨h.pairwise, pairwise_insertionSort r _, fun a ha b hb => ?_⟩
        exact h.before a ha b ((mem_insertionSort r).mp hb)
      · refine hperm.trans ?_
        conv_lhs => rw [← upTo_append_rest limit l]
        exact (perm_insertionSort r _).symm.append_left _
    rw [hsort]
    exact (upTo_append_of_rest fun hrest => by rw [hrest]; rfl).symm

theorem foldl_min (l : List α) (a : α) :
      l.foldl (fun best b => if r best b then best else b) a ∈ a :: l ∧
      ∀ b ∈ a :: l, r (l.foldl (fun best b => if r best b then best else b) a) b := by
  induction l generalizing a with
  | nil =>
    refine ⟨.head _, fun b hb => ?_⟩
    rw [mem_singleton.mp hb]
    exact (Std.Total.total a a).elim id id
  | cons b l ih =>
    rw [foldl_cons]
    by_cases hab : r a b
    · rw [if_pos hab]
      obtain ⟨hmem, hbelow⟩ := ih a
      obtain ⟨hfirst, hrest⟩ := forall_mem_cons.mp hbelow
      refine ⟨?_,
        forall_mem_cons.mpr ⟨hfirst, forall_mem_cons.mpr ⟨IsTrans.trans _ _ _ hfirst hab, hrest⟩⟩⟩
      rcases mem_cons.mp hmem with h | h
      · exact mem_cons.mpr (.inl h)
      · exact .tail _ (.tail _ h)
    · rw [if_neg hab]
      obtain ⟨hmem, hbelow⟩ := ih b
      have hba : r b a := (Std.Total.total a b).resolve_left hab
      exact ⟨.tail _ hmem,
        forall_mem_cons.mpr ⟨IsTrans.trans _ _ _ (hbelow b mem_cons_self) hba, hbelow⟩⟩

theorem mem_of_minBy {a : α} (h : minBy r l = some a) : a ∈ l := by
  cases l with
  | nil => cases h
  | cons b l =>
    cases h
    exact (foldl_min l b).1

/-- The least element is the page of one element. -/
theorem toList_minBy (hseparates : Separates r l) : (minBy r l).toList = page r (some 1) l := by
  cases l with
  | nil => rfl
  | cons a l =>
    obtain ⟨hmem, hbelow⟩ := foldl_min (r := r) l a
    unfold page minBy
    have hsorted := pairwise_insertionSort r (a :: l)
    have hperm := perm_insertionSort r (a :: l)
    cases hfirst : (a :: l).insertionSort r with
    | nil =>
      rw [hfirst] at hperm
      exact absurd hperm.symm.eq_nil (cons_ne_nil _ _)
    | cons first rest =>
      rw [hfirst] at hperm hsorted
      have hfirstMem := hperm.subset mem_cons_self
      have hle : r first (l.foldl (fun best b => if r best b then best else b) a) := by
        rcases mem_cons.mp (hperm.mem_iff.mpr hmem) with h | h
        · rw [h]
          exact (Std.Total.total first first).elim id id
        · exact rel_of_pairwise_cons hsorted h
      have heq := hseparates _ hmem first hfirstMem (hbelow first hfirstMem) hle
      simp only [Option.toList_some, upTo_some, take_succ_cons, take_zero, heq]

end Page

end Page
