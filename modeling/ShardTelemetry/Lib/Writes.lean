import Mathlib.Data.List.Perm.Basic

/-!
# Writes into a list

A list of positions with values is written into a list, one after the other.  `getElem?_writes_iff`
says when every value is still there at the end, and `filter_writes_perm_iff` when no value of a
kind was overwritten, so that the values of that kind are those that were written.
-/

namespace Writes

open List

variable {α : Type}

def writes (out : List α) (ws : List (Nat × α)) : List α :=
  ws.foldl (fun out w => out.set w.1 w.2) out

/-- The values that the writes replace. -/
def replaced : List α → List (Nat × α) → List α
  | _, [] => []
  | out, w :: ws => out[w.1]?.toList ++ replaced (out.set w.1 w.2) ws

variable {out : List α} {ws : List (Nat × α)}

@[simp] theorem writes_cons (out : List α) (w) (ws) :
    writes out (w :: ws) = writes (out.set w.1 w.2) ws := rfl

@[simp] theorem length_writes : (writes out ws).length = out.length := by
  induction ws generalizing out with
  | nil => rfl
  | cons w ws ih => rw [writes_cons, ih, length_set]

/-- A chunk that replaces as many values as it has is written value by value. -/
theorem take_append_append_drop {chunk : List α} (h : start + chunk.length ≤ out.length) :
    out.take start ++ chunk ++ out.drop (start + chunk.length) =
      writes out ((range' start chunk.length).zip chunk) := by
  induction chunk generalizing start out with
  | nil => simp [writes]
  | cons c chunk ih =>
    rw [length_cons] at h
    have fits : start + 1 + chunk.length ≤ (out.set start c).length := by
      rw [length_set]
      omega
    have first : (out.set start c).take (start + 1) = out.take start ++ [c] := by
      rw [take_add_one, take_set, set_eq_of_length_le (length_take_le ..),
        getElem?_set_self (by omega)]
      rfl
    rw [length_cons, range'_succ, zip_cons_cons, writes_cons, ← ih fits, first,
      drop_set_of_lt (by omega)]
    simp [Nat.add_assoc, Nat.add_comm 1]

theorem getElem?_writes_of_notMem (h : ∀ w ∈ ws, w.1 ≠ pos) :
    (writes out ws)[pos]? = out[pos]? := by
  induction ws generalizing out with
  | nil => rfl
  | cons w ws ih =>
    obtain ⟨first, rest⟩ := forall_mem_cons.mp h
    rw [writes_cons, ih rest, getElem?_set_ne first]

/-- Every value that was written is there at the end, if and only if no position got two values. -/
theorem getElem?_writes_iff (inside : ∀ w ∈ ws, w.1 < out.length) :
    (∀ w ∈ ws, (writes out ws)[w.1]? = some w.2) ↔ ws.Pairwise fun a b => a.1 = b.1 →
      a.2 = b.2 := by
  induction ws generalizing out with
  | nil => simp
  | cons w ws ih =>
    obtain ⟨first, rest⟩ := forall_mem_cons.mp inside
    have ih := @ih (out.set w.1 w.2) fun w' mem => by
      rw [length_set]
      exact rest w' mem
    rw [forall_mem_cons, pairwise_cons, writes_cons, ih]
    refine and_congr_left fun pairwise => ?_
    have later := ih.mpr pairwise
    constructor
    · intro last other mem same
      have final := later other mem
      rw [← same] at final
      exact Option.some.inj (last.symm.trans final)
    · intro agree
      by_cases written : ∃ other ∈ ws, other.1 = w.1
      · obtain ⟨other, mem, same⟩ := written
        have final := later other mem
        rw [same] at final
        rw [final, agree other mem same.symm]
      · rw [getElem?_writes_of_notMem fun other mem same => written ⟨other, mem, same⟩,
          getElem?_set_self first]

/-- What was written and what was there are at the end there or replaced. -/
theorem writes_append_replaced_perm (inside : ∀ w ∈ ws, w.1 < out.length) :
    (writes out ws ++ replaced out ws).Perm (out ++ ws.map (·.2)) := by
  induction ws generalizing out with
  | nil => exact .refl _
  | cons w ws ih =>
    obtain ⟨first, rest⟩ := forall_mem_cons.mp inside
    have ih := @ih (out.set w.1 w.2) fun w' mem => by
      rw [length_set]
      exact rest w' mem
    have swap : (out[w.1] :: out.set w.1 w.2).Perm (w.2 :: out) := by
      refine ((set_perm_cons_eraseIdx first w.2).cons _).trans ((Perm.swap ..).trans ?_)
      exact (getElem_cons_eraseIdx_perm first).cons _
    rw [writes_cons, replaced, getElem?_eq_getElem first]
    calc writes (out.set w.1 w.2) ws ++ (out[w.1] :: replaced (out.set w.1 w.2) ws)
      _ ~ out[w.1] :: (writes (out.set w.1 w.2) ws ++ replaced (out.set w.1 w.2) ws) := perm_middle
      _ ~ out[w.1] :: (out.set w.1 w.2 ++ ws.map (·.2)) := ih.cons _
      _ ~ w.2 :: out ++ ws.map (·.2) := swap.append_right _
      _ ~ out ++ (w :: ws).map (·.2) := perm_middle.symm

/-- No value of a kind is replaced, if and only if none was there and none got a later value. -/
theorem replaced_iff (kind : α → Bool) (inside : ∀ w ∈ ws, w.1 < out.length) :
    (∀ a ∈ replaced out ws, kind a = false) ↔ (∀ w ∈ ws, ∀ a ∈ out[w.1]?, kind a = false) ∧
      ws.Pairwise fun a b => a.1 = b.1 → kind a.2 = false := by
  induction ws generalizing out with
  | nil => simp [replaced]
  | cons w ws ih =>
    obtain ⟨first, rest⟩ := forall_mem_cons.mp inside
    have ih := @ih (out.set w.1 w.2) fun w' mem => by
      rw [length_set]
      exact rest w' mem
    rw [replaced, forall_mem_append, ih, forall_mem_cons, pairwise_cons]
    simp only [Option.mem_toList, ← Option.mem_def]
    constructor
    · rintro ⟨old, new, pairwise⟩
      refine ⟨⟨old, fun other mem a found => ?_⟩, fun other mem same => ?_, pairwise⟩
      · by_cases same : w.1 = other.1
        · exact old a (same ▸ found)
        · exact new other mem a (by rwa [getElem?_set_ne same])
      · exact new other mem w.2 (by rw [← same, getElem?_set_self first]; rfl)
    · rintro ⟨⟨old, others⟩, later, pairwise⟩
      refine ⟨old, fun other mem a found => ?_, pairwise⟩
      by_cases same : w.1 = other.1
      · rw [← same, getElem?_set_self first] at found
        exact Option.some.inj found ▸ later other mem same
      · rw [getElem?_set_ne same] at found
        exact others other mem a found

/-- Over a list without values of a kind, the values of that kind are those that were written, if
and only if none of them got a later value. -/
theorem filter_writes_perm_iff (kind : α → Bool) (empty : out.filter kind = [])
    (inside : ∀ w ∈ ws, w.1 < out.length) :
    ((writes out ws).filter kind).Perm ((ws.map (·.2)).filter kind) ↔
      ws.Pairwise fun a b => a.1 = b.1 → kind a.2 = false := by
  have perm := (writes_append_replaced_perm inside).filter kind
  rw [filter_append, filter_append, empty, nil_append] at perm
  have none : ∀ w ∈ ws, ∀ a ∈ out[w.1]?, kind a = false := fun w _ a found => by
    simpa using filter_eq_nil_iff.mp empty a (mem_of_getElem? found)
  have lost := replaced_iff kind inside
  rw [and_iff_right none] at lost
  rw [← lost]
  constructor
  · intro same
    have length := same.length_eq.trans perm.length_eq.symm
    rw [length_append] at length
    simpa using filter_eq_nil_iff.mp (length_eq_zero_iff.mp (Nat.left_eq_add.mp length))
  · intro all
    have nothing : (replaced out ws).filter kind = [] := filter_eq_nil_iff.mpr fun a mem => by
      simp [all a mem]
    rwa [nothing, append_nil] at perm

end Writes
