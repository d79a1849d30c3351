import Mathlib.Algebra.BigOperators.Group.List.Basic
import Mathlib.Data.List.AList

/-!
# What a map holds in total

Each entry of a map holds something that can be added up, such as a bag of items.  `total` adds it
up over the map.  Taking an entry out lowers the total by what the entry held, and putting one in
raises it by what the new entry holds and the old one does not.
-/

namespace Holdings

open List

variable {κ β : Type*} [DecidableEq κ] {M : Type*} [AddCommMonoid M] (holds : κ → β → M)

def total (map : AList fun _ : κ => β) : M :=
  (map.entries.map fun entry => holds entry.1 entry.2).sum

variable {map : AList fun _ : κ => β} {key : κ} {value : β}

omit [DecidableEq κ] in
@[simp] theorem total_empty : total holds (∅ : AList fun _ : κ => β) = 0 := rfl

theorem total_insert (map : AList fun _ : κ => β) (key : κ) (value : β) :
    total holds (map.insert key value) = holds key value + total holds (map.erase key) := by
  unfold total
  rfl

theorem total_erase (present : map.lookup key = some value) :
    holds key value + total holds (map.erase key) = total holds map := by
  have mem : key ∈ map.entries.keys := dlookup_isSome.mp (by
    rw [show map.entries.dlookup key = _ from present]; rfl)
  obtain ⟨found, before, after, -, entries, erased⟩ := exists_of_kerase mem
  have : found = value := by
    have member : (⟨key, found⟩ : Sigma fun _ : κ => β) ∈ map.entries := by simp [entries]
    exact Option.some.inj ((AList.mem_lookup_iff.mpr member).symm.trans present)
  subst this
  have rest : (map.erase key).entries = before ++ after := erased
  simp only [total, rest, entries, map_append, map_cons, sum_append, sum_cons]
  exact add_left_comm _ _ _

theorem erase_of_lookup_eq_none (absent : map.lookup key = none) : map.erase key = map :=
  AList.ext (kerase_of_notMem_keys (AList.lookup_eq_none.mp absent))

/-- Taking out what is there, if anything. -/
theorem total_erase_elim (map : AList fun _ : κ => β) (key : κ) :
    ((map.lookup key).elim 0 (holds key)) + total holds (map.erase key) = total holds map := by
  cases found : map.lookup key with
  | none => rw [Option.elim_none, zero_add, erase_of_lookup_eq_none found]
  | some value => exact total_erase holds found

end Holdings
