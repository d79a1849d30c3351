import Mathlib.Data.Nat.Bitwise
import ShardTelemetry.Lib.Bytes

/-!
# Integers of variable length

A number is written in groups of seven bits, least significant first, each in a byte whose highest
bit says that another group follows.  The reader has a register of a fixed width, and what it shifts
out is lost or refused; a number that fits the register is read back (`reads_read`).

Signed numbers are folded into unsigned ones by `zigzag`, which is a bijection at every width.
-/

namespace Varint

open Bytes

/-! ## Groups of seven bits -/

/-- Write a number; the first argument bounds how many groups can follow the first. -/
def writeFrom : Nat → Nat → List UInt8
  | 0, value => [UInt8.ofNat value]
  | steps + 1, value =>
    if value < 0x80 then [UInt8.ofNat value]
    else ((UInt8.ofNat value &&& 0x7f) ||| 0x80) :: writeFrom steps (value >>> 7)

/-- Write a number of a given width in bits. -/
def write (width value : Nat) : List UInt8 := writeFrom (width / 7) value

section Read

variable {ε : Type} (width : Nat) (truncated long : ε) (unfit : Option ε)

/-- What does not fit the register is refused, if there is an error for it, and lost otherwise. -/
def accept (fits : Bool) : Reader ε Unit :=
  match unfit with
  | some error => require fits error
  | none => pure ()

/-- Read the groups from a position on; there is no room for more than the given number of them. -/
def readFrom : Nat → Nat → Nat → Reader ε Nat
  | 0, _, _ => throw long
  | steps + 1, shift, value => do
    let group ← byte truncated
    let payload := (group &&& 0x7f).toNat
    accept unfit (payload <<< shift < 2 ^ width)
    let value := value ||| (payload <<< shift) % 2 ^ width
    if group &&& 0x80 = 0 then return value else readFrom steps (shift + 7) value

/-- Read a number of a given width in bits. -/
def read : Reader ε Nat := readFrom width truncated long unfit (width / 7 + 1) 0 0

end Read

/-! ## Reading what was written -/

/-- A group that is the last one. -/
theorem last_group {value : Nat} (h : value < 128) :
    (UInt8.ofNat value &&& 0x7f).toNat = value ∧ UInt8.ofNat value &&& 0x80 = 0 := by
  revert value
  decide +kernel

/-- A group that another one follows. -/
theorem inner_group (value : Nat) :
      (((UInt8.ofNat value &&& 0x7f) ||| 0x80) &&& 0x7f).toNat = value % 128 ∧
      ((UInt8.ofNat value &&& 0x7f) ||| 0x80) &&& 0x80 ≠ 0 := by
  have small : ∀ low < 256, (((UInt8.ofNat low &&& 0x7f) ||| 0x80) &&& 0x7f).toNat = low % 128 ∧
      ((UInt8.ofNat low &&& 0x7f) ||| 0x80) &&& 0x80 ≠ 0 := by decide +kernel
  have wrap : UInt8.ofNat value = UInt8.ofNat (value % 256) := by
    apply UInt8.toNat.inj
    simp
  have mod : value % 256 % 128 = value % 128 := Nat.mod_mod_of_dvd value (by decide)
  rw [wrap, ← mod]
  exact small _ (Nat.mod_lt _ (by decide))

/-- What the register holds after one more group, if nothing is shifted out of it. -/
theorem or_shiftLeft_mod {width shift value group : Nat} (h : value < 2 ^ shift)
    (fits : group * 2 ^ shift < 2 ^ width) :
    value ||| (group <<< shift) % 2 ^ width = group * 2 ^ shift + value := by
  rw [Nat.shiftLeft_eq, Nat.mod_eq_of_lt fits, Nat.or_comm, Nat.mul_comm,
    ← Nat.two_pow_add_eq_or_of_lt h]

section RoundTrip

variable {ε : Type} {width : Nat} {truncated long : ε} {unfit : Option ε}

/-- What fits is admitted. -/
theorem reads_accept {β : Type} {fits : Bool} {next : Unit → Reader ε β}
    {bytes : List UInt8} {b : β}
    (h : fits = true) (h' : Reads (next ()) bytes b) :
    Reads (accept unfit fits >>= next) bytes b := by
  cases unfit with
  | none => exact h'
  | some error => exact Reads.require h h'

/-- The last group is read into the register. -/
theorem reads_last (steps : Nat) {shift value number : Nat} (below : value < 2 ^ shift)
    (fits : number * 2 ^ shift + value < 2 ^ width) (small : number < 128) :
    Reads (readFrom width truncated long unfit (steps + 1) shift value) [UInt8.ofNat number]
      (number * 2 ^ shift + value) := by
  obtain ⟨low, done⟩ := last_group small
  refine (Reads.byte _).bind (b := number * 2 ^ shift + value) ?_
  dsimp only
  rw [low, or_shiftLeft_mod below (by omega), if_pos done]
  exact reads_accept (decide_eq_true (by rw [Nat.shiftLeft_eq]; omega)) (Reads.pure _)

theorem reads_readFrom (steps : Nat) {shift value number : Nat} (below : value < 2 ^ shift)
    (fits : number * 2 ^ shift + value < 2 ^ width) (room : number < 128 ^ (steps + 1)) :
    Reads (readFrom width truncated long unfit (steps + 1) shift value) (writeFrom steps number)
      (number * 2 ^ shift + value) := by
  induction steps generalizing shift value number with
  | zero => exact reads_last 0 below fits (by simpa using room)
  | succ steps ih =>
    rw [writeFrom]
    split
    · next small => exact reads_last (steps + 1) below fits small
    · -- one group is read, and the rest of the number is read into the register above it
      obtain ⟨low, more⟩ := inner_group number
      have power : 2 ^ (shift + 7) = 128 * 2 ^ shift := by
        rw [Nat.pow_add, Nat.mul_comm]
      have sum : number / 128 * 2 ^ (shift + 7) + (number % 128 * 2 ^ shift + value) =
          number * 2 ^ shift + value := by
        rw [power, ← Nat.mul_assoc, ← Nat.add_assoc, ← Nat.add_mul, Nat.mul_comm _ 128,
          Nat.div_add_mod]
      have part : number % 128 * 2 ^ shift ≤ number * 2 ^ shift :=
        Nat.mul_le_mul_right _ (Nat.mod_le _ _)
      have group : number % 128 * 2 ^ shift ≤ 127 * 2 ^ shift :=
        Nat.mul_le_mul_right _ (Nat.le_of_lt_succ (Nat.mod_lt _ (by decide)))
      refine (Reads.byte _).bind ?_
      dsimp only
      rw [low, or_shiftLeft_mod below (by omega), if_neg more, ← sum, Nat.shiftRight_eq_div_pow]
      refine reads_accept (decide_eq_true (by rw [Nat.shiftLeft_eq]; omega)) ?_
      apply ih
      · omega
      · rw [show 2 ^ 7 = 128 from rfl, sum]
        exact fits
      · rw [Nat.pow_succ] at room
        exact Nat.div_lt_of_lt_mul (by omega)

/-- A number that fits the register is read back. -/
theorem reads_read {number : Nat} (h : number < 2 ^ width) :
    Reads (read width truncated long unfit) (write width number) number := by
  have room : number < 128 ^ (width / 7 + 1) := by
    rw [show (128 : Nat) = 2 ^ 7 from rfl, ← Nat.pow_mul]
    exact h.trans_le (Nat.pow_le_pow_right (by decide) (by omega))
  have reads : Reads (read width truncated long unfit) (write width number) (number * 2 ^ 0 + 0) :=
    reads_readFrom (width / 7) (by decide) (by simpa using h) room
  simpa using reads

end RoundTrip

/-! ## Signed numbers -/

variable {w : Nat}

/-- Interleave the non-negative and the negative numbers. -/
def zigzag (value : BitVec w) : BitVec w := (value <<< 1) ^^^ value.sshiftRight (w - 1)

def unzigzag (value : BitVec w) : BitVec w := (value >>> 1) ^^^ -(value &&& 1)

theorem getLsbD_zigzag (value : BitVec w) {i : Nat} (h : i < w) :
    (zigzag value).getLsbD i = ((decide (0 < i) && value.getLsbD (i - 1)) ^^ value.msb) := by
  have sign : (value.sshiftRight (w - 1)).getLsbD i = value.msb := by
    rw [BitVec.getLsbD_sshiftRight]
    split
    · next low =>
      have : w - 1 + i = w - 1 := by omega
      rw [this, BitVec.msb_eq_getLsbD_last]
      simp [h]
    · simp [h]
  rw [zigzag, BitVec.getLsbD_xor, sign, BitVec.getLsbD_shiftLeft]
  cases i with
  | zero => simp
  | succ i => simp [h]

/-- The negation of the lowest bit has that bit everywhere. -/
theorem getLsbD_neg_and_one (value : BitVec w) {i : Nat} (h : i < w) :
    (-(value &&& 1)).getLsbD i = value.getLsbD 0 := by
  cases low : value.getLsbD 0 with
  | false =>
    have zero : value &&& 1 = 0 := by
      ext j hj
      cases j with
      | zero => simp [← BitVec.getLsbD_eq_getElem, low]
      | succ j => simp
    rw [zero]
    simp
  | true =>
    have one : value &&& 1 = 1 := by
      ext j hj
      cases j with
      | zero => simp [← BitVec.getLsbD_eq_getElem, low]
      | succ j => simp
    rw [one]
    simp [h, BitVec.neg_one_eq_allOnes]

theorem unzigzag_zigzag (value : BitVec w) : unzigzag (zigzag value) = value := by
  ext i h
  rw [← BitVec.getLsbD_eq_getElem, ← BitVec.getLsbD_eq_getElem, unzigzag, BitVec.getLsbD_xor,
    BitVec.getLsbD_ushiftRight, getLsbD_neg_and_one _ h, getLsbD_zigzag _ (Nat.zero_lt_of_lt h)]
  rcases Nat.lt_or_ge (1 + i) w with inner | last
  · rw [getLsbD_zigzag _ inner, decide_eq_true (by omega : 0 < 1 + i)]
    simp
  · have top : i = w - 1 := by omega
    rw [BitVec.getLsbD_of_ge _ _ last, BitVec.msb_eq_getLsbD_last, top]
    simp

end Varint
