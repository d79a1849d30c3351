import Mathlib.Order.Lattice.Nat

/-!
# Edit distance

The least number of insertions, deletions and substitutions that turn one list into another, where
`same` says which elements count as equal.  `IsDistance.step` is the step of the usual table: it
adds an element at the head of both lists, so a table over prefixes works on the reversed lists.
-/

variable {α : Type} {same : α → α → Bool} {x y : α} {left right : List α}
  {count diagonal above beside : Nat}

/-- `left` becomes `right` by so many insertions, deletions and substitutions. -/
inductive Edits (same : α → α → Bool) : List α → List α → Nat → Prop
  | nil : Edits same [] [] 0
  | keep {x y : α} {left right : List α} {count : Nat} :
    same x y = true → Edits same left right count → Edits same (x :: left) (y :: right) count
  | substitute {left right : List α} {count : Nat} (x y : α) :
    Edits same left right count → Edits same (x :: left) (y :: right) (count + 1)
  | delete {left right : List α} {count : Nat} (x : α) :
    Edits same left right count → Edits same (x :: left) right (count + 1)
  | insert {left right : List α} {count : Nat} (y : α) :
    Edits same left right count → Edits same left (y :: right) (count + 1)

noncomputable def editDistance (same : α → α → Bool) (left right : List α) : Nat :=
  sInf {count | Edits same left right count}

/-- An alignment with so many edits exists and none has fewer. -/
abbrev IsDistance (same : α → α → Bool) (left right : List α) (count : Nat) : Prop :=
  IsLeast {count | Edits same left right count} count

namespace Edits

theorem deleteAll (left : List α) : Edits same left [] left.length := by
  induction left with
  | nil => exact nil
  | cons x left ih => exact ih.delete x

theorem insertAll (right : List α) : Edits same [] right right.length := by
  induction right with
  | nil => exact nil
  | cons y right ih => exact ih.insert y

theorem append {left' right' : List α} {count' : Nat} (h : Edits same left right count)
    (h' : Edits same left' right' count') :
    Edits same (left ++ left') (right ++ right') (count + count') := by
  induction h with
  | nil => simpa using h'
  | keep equal _ ih => exact ih.keep equal
  | substitute x y _ ih => exact Nat.succ_add _ _ ▸ ih.substitute x y
  | delete x _ ih => exact Nat.succ_add _ _ ▸ ih.delete x
  | insert y _ ih => exact Nat.succ_add _ _ ▸ ih.insert y

theorem reverse (h : Edits same left right count) :
    Edits same left.reverse right.reverse count := by
  induction h with
  | nil => exact nil
  | keep equal _ ih => simpa using ih.append (nil.keep equal)
  | substitute x y _ ih => simpa using ih.append (nil.substitute x y)
  | delete x _ ih => simpa using ih.append (nil.delete x)
  | insert y _ ih => simpa using ih.append (nil.insert y)

theorem reverse_iff : Edits same left.reverse right.reverse count ↔ Edits same left right count :=
  ⟨fun h => by simpa using h.reverse, reverse⟩

theorem tail (h : Edits same (x :: left) right count) :
    ∃ before after fewer, right = before ++ after ∧ Edits same left after fewer ∧
      fewer ≤ count := by
  generalize hwhole : x :: left = whole at h
  induction h with
  | nil => cases hwhole
  | @keep _ y _ right count _ h =>
    cases hwhole
    exact ⟨[y], right, count, rfl, h, le_rfl⟩
  | @substitute _ right count _ y h =>
    cases hwhole
    exact ⟨[y], right, count, rfl, h, Nat.le_succ count⟩
  | @delete _ right count _ h =>
    cases hwhole
    exact ⟨[], right, count, rfl, h, Nat.le_succ count⟩
  | @insert _ _ count y _ ih =>
    obtain ⟨before, after, fewer, rfl, edits, le⟩ := ih hwhole
    exact ⟨y :: before, after, fewer, rfl, edits, le.trans (Nat.le_succ count)⟩

/-- The end of the left list is aligned with an end of the right one. -/
theorem split {front back : List α} (h : Edits same (front ++ back) right count) :
    ∃ before after fewer, right = before ++ after ∧ Edits same back after fewer ∧
      fewer ≤ count := by
  induction front generalizing right count with
  | nil => exact ⟨[], right, count, rfl, h, le_rfl⟩
  | cons x front ih =>
    obtain ⟨first, after, fewer, rfl, edits, le⟩ := h.tail
    obtain ⟨before, after, fewest, rfl, edits, le'⟩ := ih edits
    exact ⟨first ++ before, after, fewest, (List.append_assoc _ _ _).symm, edits, le'.trans le⟩

theorem length_le (h : Edits same left right count) :
    left.length ≤ right.length + count ∧ right.length ≤ left.length + count := by
  induction h with
  | nil => simp
  | keep => grind
  | substitute => grind
  | delete => grind
  | insert => grind

end Edits

theorem editDistance_le_iff {bound : Nat} :
    editDistance same left right ≤ bound ↔ ∃ count ≤ bound, Edits same left right count := by
  have aligned : Edits same left right (right.length + left.length) := by
    simpa using (Edits.insertAll right).append (Edits.deleteAll left)
  constructor
  · intro le
    exact ⟨_, le, Nat.sInf_mem ⟨_, aligned⟩⟩
  · rintro ⟨count, le, edits⟩
    exact (Nat.sInf_le edits).trans le

namespace IsDistance

theorem left_nil (right : List α) : IsDistance same [] right right.length :=
  ⟨.insertAll right, fun _ h => by simpa using Edits.length_le h |>.2⟩

theorem right_nil (left : List α) : IsDistance same left [] left.length :=
  ⟨.deleteAll left, fun _ h => by simpa using Edits.length_le h |>.1⟩

theorem step (hd : IsDistance same left right diagonal)
    (ha : IsDistance same left (y :: right) above)
    (hb : IsDistance same (x :: left) right beside) : IsDistance same (x :: left) (y :: right)
      (min (min (if same x y then diagonal else diagonal + 1) (above + 1)) (beside + 1)) := by
  constructor
  · refine min_rec' (· ∈ _) (min_rec' (· ∈ _) ?_ (ha.1.delete x)) (hb.1.insert y)
    split
    · next equal => exact hd.1.keep equal
    · exact hd.1.substitute x y
  · intro count edits
    cases edits with
    | keep equal h =>
      have := hd.2 h
      simp [equal, this]
    | substitute _ _ h =>
      have := hd.2 h
      grind
    | delete _ h =>
      have := ha.2 h
      grind
    | insert _ h =>
      have := hb.2 h
      grind

end IsDistance
