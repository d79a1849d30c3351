import Mathlib.Algebra.Order.Ring.Nat

/-!
# Reading what was written

Fixed-width little-endian integers as lists of bytes, and readers that consume a list of bytes from
the front.  The state of a reader is what is left of the buffer, and it fails with an error of its
own choosing when the buffer is too short.

`Reads r bytes a` says that `r` consumes exactly `bytes` and returns `a`, whatever follows.  It is
closed under sequencing and under repetition, so the round trip of a format is proved field by
field.
-/

namespace Bytes

open List

/-! ## Little-endian integers -/

/-- The low `width` bytes of a number, least significant first. -/
def toLE : Nat → Nat → List UInt8
  | 0, _ => []
  | width + 1, n => UInt8.ofNat n :: toLE width (n / 256)

/-- The number that bytes spell, least significant first. -/
def ofLE : List UInt8 → Nat
  | [] => 0
  | byte :: rest => byte.toNat + 256 * ofLE rest

@[simp] theorem length_toLE (width n : Nat) : (toLE width n).length = width := by
  induction width generalizing n with
  | zero => rfl
  | succ width ih => simp [toLE, ih]

theorem ofLE_toLE {width n : Nat} (h : n < 256 ^ width) : ofLE (toLE width n) = n := by
  induction width generalizing n with
  | zero =>
    have hn : n = 0 := by simpa using h
    simp [toLE, ofLE, hn]
  | succ width ih =>
    have hdiv : n / 256 < 256 ^ width := by
      exact Nat.div_lt_of_lt_mul (by omega)
    have hbyte : (UInt8.ofNat n).toNat = n % 256 := by simp
    rw [toLE, ofLE, ih hdiv, hbyte]
    omega

theorem ofLE_lt (bytes : List UInt8) : ofLE bytes < 256 ^ bytes.length := by
  induction bytes with
  | nil => simp [ofLE]
  | cons byte rest ih =>
    have hbyte : byte.toNat < 256 := byte.toNat_lt
    rw [ofLE, length_cons, Nat.pow_succ]
    omega

/-- The low `width` bytes of a number, most significant first. -/
def toBE (width n : Nat) : List UInt8 := (toLE width n).reverse

/-- The number that bytes spell, most significant first. -/
def ofBE (bytes : List UInt8) : Nat := ofLE bytes.reverse

@[simp] theorem length_toBE (width n : Nat) : (toBE width n).length = width := by
  rw [toBE, length_reverse, length_toLE]

theorem ofBE_toBE {width n : Nat} (h : n < 256 ^ width) : ofBE (toBE width n) = n := by
  rw [ofBE, toBE, reverse_reverse, ofLE_toLE h]

/-! ## Readers -/

/-- A reader over the rest of a buffer. -/
abbrev Reader (ε α : Type) : Type := StateT (List UInt8) (Except ε) α

variable {ε α β : Type}

/-- Read a number of bytes. -/
def take (count : Nat) (error : ε) : Reader ε (List UInt8) := fun bytes =>
  if count ≤ bytes.length then .ok (bytes.take count, bytes.drop count) else .error error

/-- Read one byte. -/
def byte (error : ε) : Reader ε UInt8
  | [] => .error error
  | first :: rest => .ok (first, rest)

/-- Read a little-endian integer of a fixed width. -/
def uint (width : Nat) (error : ε) : Reader ε Nat := do
  let bytes ← take width error
  return ofLE bytes

/-- Go on only if a condition holds. -/
def require (condition : Bool) (error : ε) : Reader ε Unit := fun bytes =>
  if condition then .ok ((), bytes) else .error error

/-- A computation that reads nothing. -/
def lift (result : Except ε α) : Reader ε α := fun bytes =>
  match result with
  | .ok a => .ok (a, bytes)
  | .error error => .error error

/-- Read a number of items in a row. -/
def many (reader : Reader ε α) : Nat → Reader ε (List α)
  | 0 => pure []
  | count + 1 => do
    let item ← reader
    let items ← many reader count
    return item :: items

/-- The reader consumes exactly these bytes and returns this value, whatever follows. -/
def Reads (reader : Reader ε α) (bytes : List UInt8) (a : α) : Prop :=
  ∀ rest, reader (bytes ++ rest) = .ok (a, rest)

namespace Reads

theorem pure (a : α) : Reads (pure a : Reader ε α) [] a := fun _ => rfl

variable {reader : Reader ε α} {next : α → Reader ε β} {bytes : List UInt8} {a : α} {b : β}
  {width : Nat} {condition : Bool} {res : β × List UInt8}

theorem bind {bytes' : List UInt8} (h : Reads reader bytes a) (h' : Reads (next a) bytes' b) :
    Reads (reader >>= next) (bytes ++ bytes') b := by
  intro rest
  show (reader (bytes ++ bytes' ++ rest) >>= fun p => next p.1 p.2) = .ok (b, rest)
  rw [append_assoc, h]
  exact h' rest

/-- A reader that has read its bytes goes on behind them. -/
theorem bind_apply (h : Reads reader bytes a) (next : α → Reader ε β) (rest : List UInt8) :
    (reader >>= next) (bytes ++ rest) = next a rest := by
  show (reader (bytes ++ rest) >>= fun p => next p.1 p.2) = next a rest
  rw [h]
  rfl

/-- The last step of a reader only forms its result. -/
theorem map (f : α → β) (h : Reads reader bytes a) :
    Reads (reader >>= fun x => Pure.pure (f x)) bytes (f a) := by
  intro rest
  show (reader (bytes ++ rest) >>= fun p => Except.ok (f p.1, p.2)) = .ok (f a, rest)
  rw [h]
  rfl

theorem take {error : ε} {count : Nat} (h : bytes.length = count) :
    Reads (take count error) bytes bytes := by
  intro rest
  subst h
  simp [Bytes.take]

theorem byte {error : ε} (first : UInt8) : Reads (byte error) [first] first := fun _ => rfl

theorem uint {error : ε} {n : Nat} (h : n < 256 ^ width) :
    Reads (uint width error) (toLE width n) n := by
  have hread : Reads (Bytes.uint width error) (toLE width n) (ofLE (toLE width n)) :=
    (Reads.take (length_toLE width n)).map ofLE
  rwa [ofLE_toLE h] at hread

/-- A condition that holds reads nothing. -/
theorem require {error : ε} {next : Unit → Reader ε β} (h : condition = true)
    (h' : Reads (next ()) bytes b) : Reads (require condition error >>= next) bytes b := by
  intro rest
  show (Bytes.require condition error (bytes ++ rest) >>= fun p => next p.1 p.2) = .ok (b, rest)
  rw [Bytes.require, if_pos h]
  exact h' rest

/-- A reader that goes on behind a condition found it to hold. -/
theorem require_bind_eq_ok {error : ε} {next : Unit → Reader ε β}
    (h : (Bytes.require condition error >>= next) bytes = .ok res) :
    condition = true ∧ next () bytes = .ok res := by
  cases condition with
  | false => cases h
  | true => exact ⟨rfl, h⟩

/-- A computation that succeeds reads nothing. -/
theorem lift {res : Except ε α} (h : res = .ok a) (h' : Reads (next a) bytes b) :
    Reads (lift res >>= next) bytes b := by
  intro rest
  rw [h]
  exact h' rest

/-- Items written one after the other are read back in their order. -/
theorem many {γ : Type} {encode : γ → List UInt8} {value : γ → α} {items : List γ}
    (h : ∀ item ∈ items, Reads reader (encode item) (value item)) :
    Reads (many reader items.length) (items.flatMap encode) (items.map value) := by
  induction items with
  | nil => exact Reads.pure []
  | cons item items ih =>
    refine (h item mem_cons_self).bind ?_
    exact (ih (forall_mem_cons.mp h).2).map (value item :: ·)

end Reads

/-- What a reader returns on a whole buffer, if it consumes all of it. -/
theorem Reads.run {reader : Reader ε α} {bytes : List UInt8} {a : α} (h : Reads reader bytes a) :
    reader bytes = .ok (a, []) := by
  simpa using h []

/-- Items written one after the other and cut at any byte: the complete ones, and a part of the next
one. -/
theorem exists_take_flatMap {γ : Type} (encode : γ → List UInt8) (items : List γ) (count : Nat) :
    ∃ kept tail, (kept ≤ items.length ∧ ((items.take kept).flatMap encode).length ≤ count ∧
        ∀ more, kept < more → more ≤ items.length →
          count < ((items.take more).flatMap encode).length) ∧
      (tail = [] ∨ ∃ item part, part < (encode item).length ∧ tail = (encode item).take part) ∧
      (items.flatMap encode).take count = (items.take kept).flatMap encode ++ tail := by
  induction items generalizing count with
  | nil =>
    refine ⟨0, [], ⟨le_rfl, by simp, fun more hlt hle => ?_⟩, .inl rfl, by simp⟩
    exact absurd hlt (Nat.not_lt.mpr hle)
  | cons item items ih =>
    by_cases hcount : count < (encode item).length
    · -- not even the first item is complete
      refine ⟨0, (encode item).take count, ⟨Nat.zero_le _, by simp, fun more hlt _ => ?_⟩,
        .inr ⟨item, count, hcount, rfl⟩, ?_⟩
      · obtain ⟨more, rfl⟩ := Nat.exists_eq_add_one.mpr hlt
        rw [take_succ_cons, flatMap_cons, length_append]
        omega
      · rw [flatMap_cons, take_append_of_le_length hcount.le]
        simp
    · obtain ⟨kept, tail, ⟨hkept, hcomplete, hlong⟩, htail, htake⟩ :=
        ih (count - (encode item).length)
      refine ⟨kept + 1, tail, ⟨Nat.succ_le_succ hkept, ?_, fun more hlt hle => ?_⟩, htail, ?_⟩
      · rw [take_succ_cons, flatMap_cons, length_append]
        omega
      · obtain ⟨more, rfl⟩ := Nat.exists_eq_add_one.mpr (Nat.zero_lt_of_lt hlt)
        have hmore := hlong more (Nat.lt_of_succ_lt_succ hlt) (Nat.le_of_succ_le_succ hle)
        rw [take_succ_cons, flatMap_cons, length_append]
        omega
      · rw [flatMap_cons, take_append, take_of_length_le (by omega), htake, take_succ_cons,
          flatMap_cons, append_assoc]

end Bytes
