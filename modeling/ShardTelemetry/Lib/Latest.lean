import Mathlib.Algebra.Order.Group.Nat
import Mathlib.Tactic.Common

/-!
# The greatest of what was seen

A window of a fixed size over a totally ordered type keeps the greatest distinct elements seen so
far, in increasing order.
-/

variable {α : Type} [LinearOrder α]

/-- The greatest `n` of the elements seen, in increasing order. -/
structure Latest (n : Nat) (seen kept : List α) : Prop where
  increasing : kept.Pairwise (· < ·)
  subset : ∀ a ∈ kept, a ∈ seen
  length_le : kept.length ≤ n
  /-- What was seen and is not kept is below a full window. -/
  rest : ∀ a ∈ seen, a ∉ kept → kept.length = n ∧ ∀ b ∈ kept, a < b

namespace Latest

open List

variable {n : Nat} {seen kept before after : List α} {a first : α}

theorem empty (n : Nat) : Latest n ([] : List α) [] :=
  ⟨.nil, fun _ mem => mem, Nat.zero_le n, nofun⟩

/-- A window of size zero keeps nothing. -/
theorem zero (seen : List α) : Latest 0 seen [] :=
  ⟨.nil, nofun, le_rfl, fun _ _ _ => ⟨rfl, nofun⟩⟩

/-- The window stays as it is for an element that is in it or below it. -/
theorem skip (h : Latest n seen kept) (outside : a ∉ kept → kept.length = n ∧ ∀ b ∈ kept, a < b) :
    Latest n (seen ++ [a]) kept where
  increasing := h.increasing
  subset b hb := mem_append_left _ (h.subset b hb)
  length_le := h.length_le
  rest b hb missing := by
    obtain old | new := mem_append.mp hb
    · exact h.rest b old missing
    · obtain rfl := mem_singleton.mp new
      exact outside missing

theorem pairwise_insert (h : (before ++ after).Pairwise (· < ·)) (lower : ∀ b ∈ before, b < a)
    (upper : ∀ b ∈ after, a < b) : (before ++ a :: after).Pairwise (· < ·) := by
  obtain ⟨hbefore, hafter, -⟩ := pairwise_append.mp h
  refine pairwise_append.mpr ⟨hbefore, pairwise_cons.mpr ⟨upper, hafter⟩, ?_⟩
  intro b hb c hc
  obtain rfl | hc := mem_cons.mp hc
  · exact lower b hb
  · exact (lower b hb).trans (upper c hc)

omit [LinearOrder α] in
theorem mem_insert {b : α} : b ∈ before ++ a :: after ↔ b = a ∨ b ∈ before ++ after := by
  simp only [mem_append, mem_cons]
  tauto

section

variable (lower : ∀ b ∈ before, b < a) (upper : ∀ b ∈ after, a < b)
include lower upper

/-- A new element goes to its place among elements that leave room for it. -/
theorem place (increasing : (before ++ after).Pairwise (· < ·))
    (subset : ∀ b ∈ before ++ after, b ∈ seen) (room : (before ++ after).length < n)
    (rest : ∀ b ∈ seen, b ∉ before ++ after →
      (before ++ a :: after).length = n ∧ ∀ c ∈ before ++ a :: after, b < c) :
    Latest n (seen ++ [a]) (before ++ a :: after) where
  increasing := pairwise_insert increasing lower upper
  subset b hb := by
    obtain rfl | old := mem_insert.mp hb
    · exact mem_append_right _ (mem_singleton_self b)
    · exact mem_append_left _ (subset b old)
  length_le := by
    rw [length_append, length_cons] at *
    omega
  rest b hb missing := by
    obtain ⟨new, missing⟩ := not_or.mp (mem_insert.not.mp missing)
    obtain old | here := mem_append.mp hb
    · exact rest b old missing
    · exact absurd (mem_singleton.mp here) new

/-- A window with room takes a new element in its place. -/
theorem insert (h : Latest n seen (before ++ after)) (room : (before ++ after).length < n) :
    Latest n (seen ++ [a]) (before ++ a :: after) :=
  place lower upper h.increasing h.subset room fun b old missing =>
    absurd (h.rest b old missing).1 room.ne

/-- A full window takes a new element for its first one. -/
theorem replace (h : Latest n seen (first :: (before ++ after)))
    (full : (first :: (before ++ after)).length = n) (above : first < a) :
    Latest n (seen ++ [a]) (before ++ a :: after) := by
  obtain ⟨least, increasing⟩ := pairwise_cons.mp h.increasing
  refine place lower upper increasing (fun b old => h.subset b (.tail _ old))
    (by grind) fun b old missing => ?_
  -- below the first element, or this element itself
  have below : b ≤ first := by
    by_cases here : b ∈ first :: (before ++ after)
    · obtain rfl | later := mem_cons.mp here
      · exact le_rfl
      · exact absurd later missing
    · exact ((h.rest b old here).2 first mem_cons_self).le
  refine ⟨by grind, fun c hc => ?_⟩
  obtain rfl | later := mem_insert.mp hc
  · exact below.trans_lt above
  · exact below.trans_lt (least c later)

end

end Latest
