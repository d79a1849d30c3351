import Mathlib.Data.List.Basic
import Mathlib.Tactic.Ring

/-!
# Bits of bytes and words

Bytes as lists of bits, highest bit first, and words written into such a list with a number of bits
of their own.  Setting a bit of a byte sets it in the list (`ofBytes_modify`), and testing one looks
it up (`getElem?_ofBytes`).
-/

namespace Bits

open List

/-! ## Bytes -/

/-- The bits of a byte, highest first. -/
def ofByte (byte : UInt8) : List Bool := (range 8).map byte.toBitVec.getMsbD

/-- The bits of bytes in a row. -/
def ofBytes (bytes : List UInt8) : List Bool := bytes.flatMap ofByte

@[simp] theorem length_ofByte (byte : UInt8) : (ofByte byte).length = 8 := by simp [ofByte]

@[simp] theorem ofBytes_nil : ofBytes [] = [] := rfl

@[simp] theorem ofBytes_cons (byte : UInt8) (bytes : List UInt8) :
    ofBytes (byte :: bytes) = ofByte byte ++ ofBytes bytes := rfl

theorem ofBytes_append (bytes bytes' : List UInt8) :
    ofBytes (bytes ++ bytes') = ofBytes bytes ++ ofBytes bytes' := flatMap_append

@[simp] theorem length_ofBytes (bytes : List UInt8) :
    (ofBytes bytes).length = 8 * bytes.length := by
  induction bytes with
  | nil => rfl
  | cons byte bytes ih =>
    rw [ofBytes_cons, length_append, length_ofByte, ih, length_cons]
    omega

theorem getElem?_ofByte (byte : UInt8) {i : Nat} (h : i < 8) :
    (ofByte byte)[i]? = some (byte.toBitVec.getMsbD i) := by
  simp [ofByte, h]

/-- The bit at a position is in the byte that the position is in. -/
theorem getElem?_ofBytes (bytes : List UInt8) (pos : Nat) :
    (ofBytes bytes)[pos]? = (bytes[pos / 8]?).map fun byte => byte.toBitVec.getMsbD (pos % 8) := by
  induction bytes generalizing pos with
  | nil => simp
  | cons byte bytes ih =>
    rw [ofBytes_cons]
    rcases Nat.lt_or_ge pos 8 with inside | beyond
    · rw [getElem?_append_left (by simpa using inside), getElem?_ofByte byte inside,
        Nat.div_eq_of_lt inside, Nat.mod_eq_of_lt inside]
      rfl
    · obtain ⟨later, rfl⟩ := Nat.exists_eq_add_of_le beyond
      rw [getElem?_append_right (by simp), length_ofByte, Nat.add_sub_cancel_left, ih,
        Nat.add_div_left _ (by decide), Nat.add_mod_left]
      rfl

theorem ofByte_or (byte : UInt8) {i : Nat} (h : i < 8) :
    ofByte (byte ||| (1 <<< UInt8.ofNat (7 - i))) = (ofByte byte).set i true := by
  have mask : ∀ i < 8, ∀ j < 8,
      ((1 : UInt8) <<< UInt8.ofNat (7 - i)).toBitVec.getMsbD j = decide (i = j) := by decide
  apply ext_getElem?
  intro j
  rcases Nat.lt_or_ge j 8 with inside | beyond
  · rw [getElem?_ofByte _ inside, getElem?_set, getElem?_ofByte byte inside, length_ofByte,
      UInt8.toBitVec_or, BitVec.getMsbD_or, mask i h j inside]
    by_cases eq : i = j
    · simp [eq, inside]
    · simp [eq]
  · rw [getElem?_eq_none (by simpa using beyond), getElem?_eq_none (by simpa using beyond)]

/-- A bit that is set in its byte is set in the list. -/
theorem ofBytes_modify (bytes : List UInt8) (pos : Nat) :
    ofBytes (bytes.modify (pos / 8) (· ||| (1 <<< UInt8.ofNat (7 - pos % 8)))) =
      (ofBytes bytes).set pos true := by
  induction bytes generalizing pos with
  | nil => simp
  | cons byte bytes ih =>
    rcases Nat.lt_or_ge pos 8 with inside | beyond
    · rw [Nat.div_eq_of_lt inside, Nat.mod_eq_of_lt inside, modify_zero_cons, ofBytes_cons,
        ofBytes_cons, ofByte_or byte inside, set_append_left _ _ (by simpa using inside)]
    · obtain ⟨later, rfl⟩ := Nat.exists_eq_add_of_le beyond
      rw [Nat.add_div_left _ (by decide), Nat.add_mod_left, modify_succ_cons, ofBytes_cons,
        ofBytes_cons, ih, set_append_right _ _ (by simp), length_ofByte, Nat.add_sub_cancel_left]

/-! ## Words -/

section Words

variable {w : Nat}

/-- The low bits of a word, highest first. -/
def ofWord (word : BitVec w) : Nat → List Bool
  | 0 => []
  | count + 1 => word.getLsbD count :: ofWord word count

/-- The word that bits spell when they are shifted in one after the other. -/
def toWord (bits : List Bool) : BitVec w := bits.foldl BitVec.shiftConcat 0

@[simp] theorem length_ofWord (word : BitVec w) (count : Nat) :
    (ofWord word count).length = count := by
  induction count with
  | zero => rfl
  | succ count ih => rw [ofWord, length_cons, ih]

theorem toNat_foldl_ofWord (word start : BitVec w) (count : Nat) :
    ((ofWord word count).foldl BitVec.shiftConcat start).toNat =
      (start.toNat * 2 ^ count + word.toNat % 2 ^ count) % 2 ^ w := by
  induction count generalizing start with
  | zero => simp [ofWord, Nat.mod_one, Nat.mod_eq_of_lt start.isLt]
  | succ count ih =>
    have bit : (word.getLsbD count).toNat = word.toNat / 2 ^ count % 2 := by
      rw [BitVec.getLsbD, Nat.testBit_eq_decide_div_mod_eq]
      rcases Nat.mod_two_eq_zero_or_one (word.toNat / 2 ^ count) with zero | one
      · rw [zero]
        rfl
      · rw [one]
        rfl
    rw [ofWord, foldl_cons, ih, BitVec.toNat_shiftConcat, bit, Nat.shiftLeft_eq, Nat.pow_one,
      Nat.mod_pow_succ, Nat.add_mod, Nat.mod_mul_mod, ← Nat.add_mod]
    ring_nf

/-- A word that fits the number of its bits is spelled by them. -/
theorem toWord_ofWord {word : BitVec w} {count : Nat} (h : word.toNat < 2 ^ count) :
    (toWord (ofWord word count) : BitVec w) = word := by
  apply BitVec.eq_of_toNat_eq
  rw [toWord, toNat_foldl_ofWord, Nat.mod_eq_of_lt h]
  simp

end Words

end Bits
