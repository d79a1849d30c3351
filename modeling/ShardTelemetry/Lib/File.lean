import Mathlib.Algebra.Order.Ring.Nat

/-!
# Files of a fixed size

Reading and overwriting a region of a file, and what a crash leaves of a write that was not synced:
each byte is the old one or the new one (`Torn`).
-/

namespace File

open List

/-- A region of a file, if the file is that long. -/
def read (file : List UInt8) (offset count : Nat) : Option (List UInt8) :=
  if offset + count ≤ file.length then some ((file.drop offset).take count) else none

/-- The file with a region overwritten. -/
def write (file : List UInt8) (offset : Nat) (bytes : List UInt8) : List UInt8 :=
  file.take offset ++ bytes ++ file.drop (offset + bytes.length)

/-- Some bytes of the old contents have been replaced by those of the new contents. -/
structure Torn (old new bytes : List UInt8) : Prop where
  length_eq : bytes.length = old.length
  either : ∀ i : Nat, bytes[i]? = old[i]? ∨ bytes[i]? = new[i]?

variable {file other bytes : List UInt8} {offset offset' count : Nat}

section

variable (h : offset + bytes.length ≤ file.length)
include h

theorem length_write : (write file offset bytes).length = file.length := by
  simp only [write, length_append, length_take, length_drop]
  omega

/-- A byte of the overwritten region. -/
theorem getElem?_write_inside {i : Nat} (hi : i < bytes.length) :
    (write file offset bytes)[offset + i]? = bytes[i]? := by
  have start : (file.take offset).length = offset := by
    rw [length_take]
    omega
  rw [write, append_assoc, getElem?_append_right (by omega), start,
    getElem?_append_left (by omega)]
  congr 1
  omega

/-- A byte outside of the overwritten region. -/
theorem getElem?_write_outside {i : Nat} (hi : i < offset ∨ offset + bytes.length ≤ i) :
    (write file offset bytes)[i]? = file[i]? := by
  have start : (file.take offset).length = offset := by
    rw [length_take]
    omega
  rw [write, append_assoc]
  obtain before | after := hi
  · rw [getElem?_append_left (by omega), getElem?_take_of_lt before]
  · rw [getElem?_append_right (by omega), getElem?_append_right (by omega), start, getElem?_drop]
    congr 1
    omega

end

/-- A region is known by its bytes. -/
theorem read_congr (length_eq : file.length = other.length)
    (h : ∀ i < count, file[offset + i]? = other[offset + i]?) :
    read file offset count = read other offset count := by
  unfold read
  rw [length_eq]
  split
  · congr 1
    apply ext_getElem?
    intro i
    rw [getElem?_take, getElem?_take]
    split
    · next hi => rw [getElem?_drop, getElem?_drop, h i hi]
    · rfl
  · rfl

theorem read_write (h : offset + bytes.length ≤ file.length) :
    read (write file offset bytes) offset bytes.length = some bytes := by
  have start : (file.take offset).length = offset := by
    rw [length_take]
    omega
  rw [read, if_pos (by rw [length_write h]; exact h), write, append_assoc]
  rw [drop_append_of_le_length (by omega), drop_eq_nil_of_le (by omega), nil_append, take_left']
  rfl

/-- Another region stays as it was. -/
theorem read_write_of_disjoint (h : offset + bytes.length ≤ file.length)
    (disjoint : offset' + count ≤ offset ∨ offset + bytes.length ≤ offset') :
    read (write file offset bytes) offset' count = read file offset' count := by
  refine read_congr (length_write h) fun i hi => ?_
  apply getElem?_write_outside h
  omega

section

variable (h : read file offset count = some bytes)
include h

/-- The start of a region. -/
theorem read_take {start : Nat} (le : start ≤ count) :
    read file offset start = some (bytes.take start) := by
  unfold read at h ⊢
  split at h
  · cases h
    rw [if_pos (by omega), take_take, Nat.min_eq_left le]
  · cases h

theorem getElem?_of_read {i : Nat} (hi : i < count) : bytes[i]? = file[offset + i]? := by
  unfold read at h
  split at h
  · cases h
    rw [getElem?_take_of_lt hi, getElem?_drop]
  · cases h

end

namespace Torn

variable {old new : List UInt8}

theorem all (h : new.length = old.length) : Torn old new new := ⟨h, fun _ => Or.inr rfl⟩

theorem none : Torn old new old := ⟨rfl, fun _ => Or.inl rfl⟩

section

variable (h : offset + bytes.length ≤ old.length) (torn : Torn old (write old offset bytes) file)
include h torn

/-- A torn write leaves the other regions as they were. -/
theorem read_of_disjoint (disjoint : offset' + count ≤ offset ∨ offset + bytes.length ≤ offset') :
    read file offset' count = read old offset' count := by
  refine read_congr torn.length_eq fun i hi => ?_
  obtain same | same := torn.either (offset' + i)
  · exact same
  · rw [same]
    apply getElem?_write_outside h
    omega

/-- A file whose torn region is all new is the one written. -/
theorem eq_write_of_read (complete : read file offset bytes.length = some bytes) :
    file = write old offset bytes := by
  apply ext_getElem?
  intro i
  by_cases hi : i < offset ∨ offset + bytes.length ≤ i
  · obtain same | same := torn.either i
    · rw [same, getElem?_write_outside h hi]
    · exact same
  · obtain ⟨j, rfl⟩ : ∃ j, i = offset + j := ⟨i - offset, by omega⟩
    rw [getElem?_write_inside h (by omega), getElem?_of_read complete (by omega)]

end

end Torn

end File
