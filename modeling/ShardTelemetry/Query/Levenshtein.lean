import ShardTelemetry.Lib.EditDistance
import ShardTelemetry.Lib.Fold
import ShardTelemetry.Query.Text

/-!
# The edit distance of the fuzzy match

The rows of `bounded_levenshtein` are the distances of a prefix of the left text to the prefixes of
the right one.  A row of which every entry exceeds the bound ends the search; an alignment of the
whole texts passes through that row, so nothing is lost.
-/

namespace ShardTelemetry.Query

open List

/-- `eq_ignore_ascii_case` of two bytes -/
def sameByte (left right : UInt8) : Bool := asciiLowerByte left == asciiLowerByte right

/-- The last row of the table when no search ends early. -/
def levenshteinTable (right : List UInt8) : Nat → List Nat → List UInt8 → List Nat
  | _, previous, [] => previous
  | index, previous, leftByte :: left =>
    levenshteinTable right (index + 1)
      ((index + 1) :: levenshteinRow leftByte (index + 1) right previous) left

/-- The distances of `read` to the prefixes of the right text, from one on.  `read` and `before`,
what stands before the rest of the right text, are reversed. -/
inductive Row (read : List UInt8) : List UInt8 → List UInt8 → List Nat → Prop
  | last {before : List UInt8} {entry : Nat} : IsDistance sameByte read before entry →
    Row read before [] [entry]
  | next {before rest : List UInt8} {rightByte : UInt8} {entry : Nat} {entries : List Nat} :
    IsDistance sameByte read before entry → Row read (rightByte :: before) rest entries →
    Row read before (rightByte :: rest) (entry :: entries)

namespace Row

variable {read prev : List UInt8}

theorem range (right) : Row [] [] right (range (right.length + 1)) := by
  have from_length : ∀ before rest : List UInt8,
      Row [] before rest (range' before.length (rest.length + 1)) := by
    intro before rest
    induction rest generalizing before with
    | nil => exact last (.left_nil before)
    | cons rightByte rest ih => exact next (.left_nil before) (ih (rightByte :: before))
  exact range_eq_range' ▸ from_length [] right

theorem levenshteinRow (h : Row read before rest ents)
    (first : IsDistance sameByte (leftByte :: read) before entry) :
    Row (leftByte :: read) before rest (entry :: levenshteinRow leftByte entry rest ents) := by
  induction h generalizing entry with
  | last => exact last first
  | @next before rest rightByte diagonal ents hdiagonal hrest ih =>
    cases hrest with
    | last habove => exact next first (ih (hdiagonal.step habove first))
    | next habove => exact next first (ih (hdiagonal.step habove first))

/-- The row after one more byte of the left text. -/
theorem step (h : Row read [] right ents) (leftByte) : Row (leftByte :: read) [] right
      ((read.length + 1) :: Query.levenshteinRow leftByte (read.length + 1) right ents) :=
  h.levenshteinRow (.right_nil (leftByte :: read))

theorem levenshteinTable (h : Row read [] right ents) (left) :
    Row (left.reverse ++ read) [] right (levenshteinTable right read.length ents left) := by
  induction left generalizing read ents with
  | nil => exact h
  | cons leftByte left ih => simpa [Query.levenshteinTable] using ih (h.step leftByte)

theorem getLastD (h : Row read before rest ents) :
    IsDistance sameByte read (rest.reverse ++ before) (ents.getLastD 0) := by
  induction h with
  | last hentry => exact hentry
  | next _ hrest ih =>
    cases hrest with
    | last => simpa using ih
    | next => simpa using ih

/-- Every prefix of the right text has its entry. -/
theorem exists_mem (h : Row read before (left ++ right) ents) :
    ∃ entry ∈ ents, IsDistance sameByte read (left.reverse ++ before) entry := by
  generalize hrest : left ++ right = rest at h
  induction h generalizing left with
  | @last before entry hentry =>
    obtain ⟨rfl, -⟩ := append_eq_nil_iff.mp hrest
    exact ⟨entry, .head _, hentry⟩
  | @next before rest rightByte entry ents hentry _ ih =>
    cases left with
    | nil => exact ⟨entry, .head _, hentry⟩
    | cons first left =>
      obtain ⟨rfl, htail⟩ := cons.inj hrest
      obtain ⟨found, mem, distance⟩ := ih htail
      exact ⟨found, .tail _ mem, by simpa using distance⟩

section

variable (h : Row read [] right ents)
include h

/-- When every entry of a row exceeds the bound, so does the distance of the whole texts. -/
theorem exceeds (hexceeds : ∀ entry ∈ ents, bound < entry) {count : Nat}
    (edits : Edits sameByte (front ++ read) right.reverse count) : bound < count := by
  obtain ⟨before, after, fewer, hright, edits, le⟩ := edits.split
  have hsplit : right = after.reverse ++ before.reverse := by
    rw [← reverse_append, ← hright, reverse_reverse]
  obtain ⟨entry, mem, distance⟩ := (hsplit ▸ h).exists_mem
  have least : entry ≤ fewer := distance.2 (by simpa using edits)
  exact (hexceeds entry mem).trans_le (least.trans le)

theorem getLastD_le_iff :
    ents.getLastD 0 ≤ bound ↔ ∃ count ≤ bound, Edits sameByte read right.reverse count := by
  have distance : IsDistance sameByte read right.reverse (ents.getLastD 0) := by
    simpa using h.getLastD
  constructor
  · intro le
    exact ⟨_, le, distance.1⟩
  · rintro ⟨count, le, edits⟩
    exact (distance.2 edits).trans le

theorem levenshteinRows_iff (left) : levenshteinRows right bound read.length ents left = true ↔
      ∃ count ≤ bound, Edits sameByte (left.reverse ++ read) right.reverse count := by
  induction left generalizing read ents with
  | nil => simpa [levenshteinRows] using h.getLastD_le_iff
  | cons leftByte left ih =>
    have hstep := h.step leftByte
    rw [levenshteinRows, reverse_cons, append_assoc]
    split
    · next exit =>
      have above := (le_foldl_min_iff.mp (Nat.succ_le_of_lt exit)).2
      simp only [Bool.false_eq_true, false_iff, not_exists, not_and]
      intro count le edits
      exact absurd le (hstep.exceeds above edits).not_ge
    · exact ih hstep

end

end Row

theorem boundedLevenshteinBytes_iff (left right) (maxDistance) :
    boundedLevenshteinBytes left right maxDistance = true ↔
      editDistance sameByte left right ≤ maxDistance := by
  rw [editDistance_le_iff, boundedLevenshteinBytes]
  split
  · next apart =>
    simp only [Bool.false_eq_true, false_iff, not_exists, not_and]
    intro count le edits
    have := edits.length_le
    omega
  · simpa [Edits.reverse_iff] using (Row.range right).levenshteinRows_iff left

/-- `bounded_levenshtein` decides whether the distance of the bytes is within the bound, as the
whole table does. -/
theorem boundedLevenshtein_correct (maxDistance : Nat) :
    (∀ left right : List UInt8, (boundedLevenshteinBytes left right maxDistance = true ↔
        editDistance sameByte left right ≤ maxDistance) ∧
          boundedLevenshteinBytes left right maxDistance =
        decide ((levenshteinTable right 0 (range (right.length + 1)) left).getLastD 0 ≤
          maxDistance)) ∧
    ∀ left right : Text, boundedLevenshtein left right maxDistance = true ↔
      editDistance sameByte (utf8 left) (utf8 right) ≤ maxDistance := by
  constructor
  · intro left right
    have exits := boundedLevenshteinBytes_iff left right maxDistance
    refine ⟨exits, ?_⟩
    have table := (Row.range right).levenshteinTable left
    rw [Bool.eq_iff_iff, exits, decide_eq_true_iff, editDistance_le_iff]
    simpa [Edits.reverse_iff] using table.getLastD_le_iff.symm
  · intro left right
    exact boundedLevenshteinBytes_iff (utf8 left) (utf8 right) maxDistance

end ShardTelemetry.Query
