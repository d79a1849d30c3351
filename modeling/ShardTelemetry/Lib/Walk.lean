import Mathlib.Data.List.Perm.Subperm
import Mathlib.Data.Nat.Find
import Mathlib.Logic.Function.Iterate

/-!
# Walking along links

Every node has at most one link.  A walk that may visit as many nodes as there are nodes with a link
finds whatever the links lead to, also when they run into a cycle.
-/

namespace Walk

open List Function Relation

variable {α : Type} [DecidableEq α] (link : α → Option α)

/-- Whether a goal is among the first nodes of a walk. -/
def meets (goal : α) : Nat → Option α → Bool
  | 0, _ | _, none => false
  | fuel + 1, some a => a = goal || meets goal fuel (link a)

variable {link} {a goal : α}

theorem meets_iff {start : Option α} :
    meets link goal fuel start = true ↔ ∃ k < fuel, (·.bind link)^[k] start = some goal := by
  induction fuel generalizing start with
  | zero => simp [meets]
  | succ fuel ih =>
    rw [Nat.exists_lt_succ_left]
    cases start with
    | none => simp [meets, iterate_fixed]
    | some a => simp [meets, ih]

omit [DecidableEq α] in
theorem transGen_iff : TransGen (link · = some ·) a goal ↔
    ∃ k, (·.bind link)^[k] (link a) = some goal := by
  constructor
  · intro h
    induction h with
    | single h => exact ⟨0, h⟩
    | tail _ h ih =>
      obtain ⟨k, hk⟩ := ih
      exact ⟨k + 1, by rw [iterate_succ_apply', hk, Option.bind_some, h]⟩
  · rintro ⟨k, hk⟩
    induction k generalizing goal with
    | zero => exact .single hk
    | succ k ih =>
      rw [iterate_succ_apply', Option.bind_eq_some_iff] at hk
      obtain ⟨b, hb, step⟩ := hk
      exact (ih hb).tail step

/-- A shortest way visits no node twice, so there are enough nodes for all of it. -/
theorem meets_iff_transGen {nodes : List α} (linked : ∀ a b, link a = some b → a ∈ nodes) :
    meets link goal nodes.length (link a) = true ↔ TransGen (link · = some ·) a goal := by
  rw [meets_iff, transGen_iff]
  refine ⟨fun ⟨k, _, hk⟩ => ⟨k, hk⟩, fun found => ⟨Nat.find found, ?_, Nat.find_spec found⟩⟩
  have reached := Nat.find_spec found
  have shortest := fun k => Nat.find_min (m := k) found
  generalize Nat.find found = k at reached shortest
  let node i := (·.bind link)^[i] (some a)
  -- from any node of the way the goal is the remaining number of links away
  have rest : ∀ i ≤ k + 1, (·.bind link)^[k + 1 - i] (node i) = some goal := by
    intro i hi
    rw [← iterate_add_apply, Nat.sub_add_cancel hi]
    exact reached
  have distinct : ((range (k + 1)).map node).Nodup := by
    refine pairwise_map.mpr (pairwise_lt_range.imp_of_mem fun {i j} _ hj hlt same => ?_)
    have hj := mem_range.mp hj
    refine shortest (k - j + i) (by omega) ?_
    have short := rest j (Nat.le_of_lt hj)
    rw [← same, ← iterate_add_apply, show k + 1 - j + i = k - j + i + 1 by omega] at short
    exact short
  have subset : (range (k + 1)).map node ⊆ nodes.map some := by
    intro x hx
    obtain ⟨i, hi, rfl⟩ := mem_map.mp hx
    have hi := mem_range.mp hi
    have next := rest (i + 1) hi
    cases hnode : node (i + 1) with
    | none => rw [hnode, iterate_fixed rfl] at next; cases next
    | some b =>
      rw [show node (i + 1) = _ from iterate_succ_apply' _ _ _, Option.bind_eq_some_iff] at hnode
      obtain ⟨c, hc, step⟩ := hnode
      exact mem_map.mpr ⟨c, linked c b step, hc.symm⟩
  have count := (distinct.subperm subset).length_le
  rwa [length_map, length_map, length_range] at count

end Walk
