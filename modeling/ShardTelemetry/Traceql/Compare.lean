import Mathlib.Data.Rat.Cast.Order

/-!
# Comparisons with literals

A condition compares the values of a field with a literal.  Numbers are compared as doubles, so that
integers and durations are rounded first.  The value of a double is a rational number or an
infinity, and absent for NaN.
-/

namespace ShardTelemetry.Traceql

open List

abbrev F64 : Type := Option (WithBot (WithTop ℚ))

/-- The values and texts of doubles, given by their bits, and the regex crate. -/
structure Engine where
  value : BitVec 64 → F64
  text : BitVec 64 → String
  isMatch : String → String → Bool

inductive Comparison where
  | equal | notEqual | greater | greaterOrEqual | less | lessOrEqual | regex | notRegex
  deriving DecidableEq

inductive ObservedValue where
  | string (value : String)
  | integer (value : Int64)
  | float (bits : BitVec 64)
  | boolean (value : Bool)
  | duration (value : UInt64)

inductive Literal where
  | nil
  | observed (value : ObservedValue)

/-- The nearest number with 53 significant bits; of two, the one with an even significand. -/
def roundNat (n : Nat) : Nat :=
  let unit := 2 ^ (n.log2 - 52)
  let low := n / unit
  unit * if 2 * (n % unit) < unit ∨ 2 * (n % unit) = unit ∧ low % 2 = 0 then low else low + 1

/-- `as f64` of an integer -/
def round (n : Int) : Int := n.sign * roundNat n.natAbs

def asF64 (n : Int) : F64 := some ((round n : ℚ) : WithTop ℚ)

/-- What an operation says of two ordered values. -/
def Comparison.order {α : Type} [LinearOrder α] (left right : α) : Comparison → Bool
  | .equal => left = right
  | .notEqual => left ≠ right
  | .greater => right < left
  | .greaterOrEqual => right ≤ left
  | .less => left < right
  | .lessOrEqual => left ≤ right
  | .regex | .notRegex => false

def compareOrder : F64 → F64 → Comparison → Bool
  | some left, some right, operation => operation.order left right
  | _, _, operation => operation = .notEqual

variable (engine : Engine)

/-- `numeric_observed` and `numeric_literal` -/
def numeric : ObservedValue → Option F64
  | .integer value => some (asF64 value.toInt)
  | .float bits => some (engine.value bits)
  | .duration value => some (asF64 value.toNat)
  | .string _ | .boolean _ => none

/-- `observed_string` and `literal_string` -/
def textOf : ObservedValue → String
  | .string value => value
  | .integer value => toString value
  | .float bits => engine.text bits
  | .boolean value => toString value
  | .duration value => toString value

def compareOne (observed expected : ObservedValue) (operation : Comparison) : Bool :=
  if operation = .regex then engine.isMatch s!"^(?:{textOf engine expected})$"
    (textOf engine observed)
  else
    match numeric engine observed, numeric engine expected with
    | some left, some right => compareOrder left right operation
    | _, _ =>
      match operation with
      | .equal => textOf engine observed = textOf engine expected
      | .notEqual => textOf engine observed ≠ textOf engine expected
      | _ => false

def compare (observed : List ObservedValue) : Literal → Comparison → Bool
  | .nil, .equal => observed.isEmpty
  | .nil, .notEqual => !observed.isEmpty
  | .nil, _ => false
  | .observed expected, operation => !observed.isEmpty &&
    match operation with
    | .notEqual => observed.all (!compareOne engine · expected .equal)
    | .notRegex => observed.all (!compareOne engine · expected .regex)
    | operation => observed.any (compareOne engine · expected operation)

/-- The integers and durations among the values. -/
inductive Whole where
  | integer (value : Int64)
  | duration (value : UInt64)

def Whole.toInt : Whole → Int
  | .integer value => value.toInt
  | .duration value => value.toNat

def Whole.observed : Whole → ObservedValue
  | .integer value => .integer value
  | .duration value => .duration value

variable {engine}

/-! ## Rounding -/

theorem roundNat_of_lt (h : n < 2 ^ 53) : roundNat n = n := by
  have small : n.log2 - 52 = 0 := by
    by_cases zero : n = 0
    · rw [zero]
      rfl
    · have := (Nat.log2_lt zero).mpr h
      omega
  simp [roundNat, small, Nat.mod_one]

/-- Above `2 ^ 53` a number is between two multiples of the unit of its size. -/
theorem log2_of_le (h : 2 ^ 53 ≤ n) : ∃ unit, 0 < unit ∧ unit = 2 ^ (n.log2 - 52) ∧
    2 ^ n.log2 = unit * 2 ^ 52 ∧ 2 ^ (n.log2 + 1) = unit * 2 ^ 53 ∧ 2 ^ n.log2 ≤ n ∧
      n < 2 ^ (n.log2 + 1) := by
  have ne : n ≠ 0 := by omega
  have large : 52 ≤ n.log2 := (Nat.le_log2 ne).mpr (by omega)
  refine ⟨_, Nat.two_pow_pos _, rfl, ?_, ?_, Nat.log2_self_le ne, Nat.lt_log2_self⟩
  · rw [← pow_add]
    congr 1
    omega
  · rw [← pow_add]
    congr 1
    omega

/-- Rounding does not leave the powers of two around a number. -/
theorem roundNat_bounds (h : 2 ^ 53 ≤ n) :
    2 ^ n.log2 ≤ roundNat n ∧ roundNat n ≤ 2 ^ (n.log2 + 1) := by
  obtain ⟨unit, pos, eq, low, high, lower, upper⟩ := log2_of_le h
  rw [low] at lower ⊢
  rw [high] at upper ⊢
  have below : 2 ^ 52 ≤ n / unit := (Nat.le_div_iff_mul_le pos).mpr (by rwa [Nat.mul_comm])
  have above : n / unit < 2 ^ 53 := Nat.div_lt_of_lt_mul upper
  unfold roundNat
  rw [← eq]
  dsimp only
  constructor
  · refine Nat.mul_le_mul_left _ ?_
    split <;> omega
  · refine Nat.mul_le_mul_left _ ?_
    split <;> omega

theorem roundNat_mono (h : m ≤ n) : roundNat m ≤ roundNat n := by
  by_cases small : m < 2 ^ 53
  · rw [roundNat_of_lt small]
    by_cases small : n < 2 ^ 53
    · rwa [roundNat_of_lt small]
    · have ne : n ≠ 0 := by omega
      have power : 2 ^ 53 ≤ 2 ^ n.log2 :=
        Nat.pow_le_pow_right (by decide) ((Nat.le_log2 ne).mpr (by omega))
      have := (roundNat_bounds (n := n) (by omega)).1
      omega
  have large : 2 ^ 53 ≤ m := by omega
  have logs :
    m.log2 ≤ n.log2 := (Nat.le_log2 (by omega)).mpr ((Nat.log2_self_le (by omega)).trans h)
  obtain same | less := logs.eq_or_lt
  · -- both are rounded to multiples of one unit
    unfold roundNat
    rw [← same]
    generalize 2 ^ (m.log2 - 52) = unit
    dsimp only
    refine Nat.mul_le_mul_left _ ?_
    have quotients : m / unit ≤ n / unit := Nat.div_le_div_right h
    obtain equal | less := quotients.eq_or_lt
    · have first := Nat.div_add_mod m unit
      have second := Nat.div_add_mod n unit
      rw [equal] at first ⊢
      split <;> split <;> omega
    · split <;> split <;> omega
  · calc roundNat m ≤ 2 ^ (m.log2 + 1) := (roundNat_bounds large).2
      _ ≤ 2 ^ n.log2 := Nat.pow_le_pow_right (by decide) less
      _ ≤ roundNat n := (roundNat_bounds (large.trans h)).1

theorem round_ofNat (n : Nat) : round n = roundNat n := by
  cases n with
  | zero => rfl
  | succ n => rw [round, Int.sign_eq_one_of_pos (by omega), one_mul, Int.natAbs_natCast]

theorem round_neg (n : Int) : round (-n) = -round n := by
  rw [round, round, Int.sign_neg, Int.natAbs_neg, neg_mul]

/-- Rounding keeps the order, though not the strict one. -/
theorem round_mono (h : a ≤ b) : round a ≤ round b := by
  obtain ⟨m, rfl | rfl⟩ := a.eq_nat_or_neg
  · obtain ⟨n, rfl⟩ := Int.eq_ofNat_of_zero_le ((Int.natCast_nonneg m).trans h)
    rw [round_ofNat, round_ofNat]
    exact_mod_cast roundNat_mono (by exact_mod_cast h)
  · obtain ⟨n, rfl | rfl⟩ := b.eq_nat_or_neg
    · rw [round_neg, round_ofNat, round_ofNat]
      omega
    · rw [round_neg, round_neg, round_ofNat, round_ofNat]
      have := roundNat_mono (m := n) (n := m) (by omega)
      omega

/-! ## Integers and durations -/

theorem numeric_observed (value : Whole) :
    numeric engine value.observed = some (asF64 value.toInt) := by
  cases value <;> rfl

/-- Integers and durations are compared by what they are rounded to. -/
theorem compareOne_observed (engine) {a b : Whole} (order : op ≠ .regex) :
    compareOne engine a.observed b.observed op = op.order (round a.toInt) (round b.toInt) := by
  unfold compareOne
  rw [if_neg order, numeric_observed, numeric_observed, asF64, asF64]
  cases op <;> simp [compareOrder, Comparison.order]

/-- A value that becomes the literal when both are rounded. -/
def Confused (literal value : Int) : Prop := value ≠ literal ∧ round value = round literal

instance (literal value : Int) : Decidable (Confused literal value) :=
  inferInstanceAs (Decidable (_ ∧ _))

/-- Rounding does not change what is asked of the values: where one that is confused with the
literal would count, one counts anyway, and where it would not, another one counts. -/
def Distinguished (values : List Int) (literal : Int) : Comparison → Prop
  | .equal | .notEqual => (∃ value ∈ values, Confused literal value) → literal ∈ values
  | .lessOrEqual => (∃ value ∈ values, Confused literal value) → ∃ value ∈ values, value ≤ literal
  | .greaterOrEqual =>
    (∃ value ∈ values, Confused literal value) → ∃ value ∈ values, literal ≤ value
  | .less =>
    (∃ value ∈ values, value < literal) →
      ∃ value ∈ values, value < literal ∧ ¬ Confused literal value
  | .greater =>
    (∃ value ∈ values, literal < value) →
      ∃ value ∈ values, literal < value ∧ ¬ Confused literal value
  | .regex | .notRegex => True

/-- What is asked of integers: that one of them compares, or that all differ. -/
def exactly (values : List Int) (literal : Int) (op : Comparison) : Bool :=
  if op = .notEqual then values.all (· ≠ literal) else values.any (op.order · literal)

/-- What `compare` asks: the same of the rounded integers. -/
theorem compare_observed (engine) {observed : List Whole} {literal : Whole}
    (nonempty : observed ≠ []) (order : op ≠ .regex ∧ op ≠ .notRegex) :
    compare engine (observed.map Whole.observed) (.observed literal.observed) op =
      exactly ((observed.map Whole.toInt).map round) (round literal.toInt) op := by
  have each (op) (order : op ≠ .regex) :
      observed.map (compareOne engine ·.observed literal.observed op) =
      observed.map fun value => op.order (round value.toInt) (round literal.toInt) :=
    map_congr_left fun value _ => compareOne_observed engine order
  simp only [compare, isEmpty_map, isEmpty_eq_false_iff.mpr nonempty, Bool.not_false, Bool.true_and]
  cases op with
  | regex => exact absurd rfl order.1
  | notRegex => exact absurd rfl order.2
  | notEqual =>
    simpa [exactly, all_map, Comparison.order, Function.comp_def] using congrArg (·.all (!·))
      (each .equal nofun)
  | _ => simpa [exactly, any_map, Function.comp_def] using congrArg (·.any id) (each _ order.1)

section

variable (values : List Int) {asked rounded confused : Int → Prop}

/-- An answer that also counts the confused values. -/
theorem exists_iff_of_or (h : ∀ value, rounded value ↔ asked value ∨ confused value) :
    ((∃ value ∈ values, rounded value) ↔ ∃ value ∈ values, asked value) ↔
      ((∃ value ∈ values, confused value) → ∃ value ∈ values, asked value) := by
  constructor
  · rintro same ⟨value, mem, mistaken⟩
    exact same.mp ⟨value, mem, (h value).mpr (.inr mistaken)⟩
  · refine fun covered => ⟨fun ⟨value, mem, counted⟩ => ?_, fun ⟨value, mem, right⟩ => ?_⟩
    · exact ((h value).mp counted).elim (fun right => ⟨value, mem, right⟩)
        fun mistaken => covered ⟨value, mem, mistaken⟩
    · exact ⟨value, mem, (h value).mpr (.inl right)⟩

/-- An answer that leaves out the confused values. -/
theorem exists_iff_of_and (h : ∀ value, rounded value ↔ asked value ∧ ¬ confused value) :
    ((∃ value ∈ values, rounded value) ↔ ∃ value ∈ values, asked value) ↔
      ((∃ value ∈ values, asked value) → ∃ value ∈ values, asked value ∧ ¬ confused value) := by
  simp only [h]
  exact ⟨Iff.mpr, fun left => ⟨fun ⟨value, mem, right, _⟩ => ⟨value, mem, right⟩, left⟩⟩

end

/-- What rounding does to each order. -/
theorem round_order (value literal) :
    (round value = round literal ↔ value = literal ∨ Confused literal value) ∧
      (round value ≤ round literal ↔ value ≤ literal ∨ Confused literal value) ∧
      (round literal ≤ round value ↔ literal ≤ value ∨ Confused literal value) ∧
      (round value < round literal ↔ value < literal ∧ ¬ Confused literal value) ∧
      (round literal < round value ↔ literal < value ∧ ¬ Confused literal value) := by
  unfold Confused
  obtain less | rfl | greater := lt_trichotomy value literal
  · have := round_mono less.le
    omega
  · simp
  · have := round_mono greater.le
    omega

/-- Rounding the values and the literal changes no answer if and only if they are distinguished. -/
theorem exactly_round_iff (order : op ≠ .regex ∧ op ≠ .notRegex) :
    exactly (values.map round) (round literal) op = exactly values literal op ↔
      Distinguished values literal op := by
  have answers (op) (h : op ≠ .notEqual) :
      exactly (values.map round) (round literal) op = exactly values literal op ↔
        ((∃ value ∈ values, op.order (round value) (round literal) = true) ↔
          ∃ value ∈ values, op.order value literal = true) := by
    rw [Bool.eq_iff_iff]
    simp only [exactly, h, if_false, any_map, any_eq_true, Function.comp]
  have equal : exactly (values.map round) (round literal) .equal = exactly values literal .equal ↔
      Distinguished values literal .equal := by
    simpa [answers, Comparison.order, Distinguished] using
      exists_iff_of_or values fun value => (round_order value literal).1
  cases op with
  | regex => exact absurd rfl order.1
  | notRegex => exact absurd rfl order.2
  | equal => exact equal
  | notEqual =>
    have negated (values : List Int) (literal) :
        exactly values literal .notEqual = !exactly values literal .equal := by
      simp [exactly, Comparison.order, not_any_eq_all_not]
    rw [negated, negated, Bool.not_inj_iff]
    exact equal
  | greater =>
    simpa [answers, Comparison.order, Distinguished] using
      exists_iff_of_and values fun value => (round_order value literal).2.2.2.2
  | greaterOrEqual =>
    simpa [answers, Comparison.order, Distinguished] using
      exists_iff_of_or values fun value => (round_order value literal).2.2.1
  | less =>
    simpa [answers, Comparison.order, Distinguished] using
      exists_iff_of_and values fun value => (round_order value literal).2.2.2.1
  | lessOrEqual =>
    simpa [answers, Comparison.order, Distinguished] using
      exists_iff_of_or values fun value => (round_order value literal).2.1

/-- Integers and durations are compared exactly if and only if rounding changes no answer. -/
theorem compare_exact_iff (engine) {observed : List Whole} {literal : Whole}
    (nonempty : observed ≠ []) (order : op ≠ .regex ∧ op ≠ .notRegex) :
    compare engine (observed.map Whole.observed) (.observed literal.observed) op =
        exactly (observed.map Whole.toInt) literal.toInt op ↔
      Distinguished (observed.map Whole.toInt) literal.toInt op := by
  rw [compare_observed engine nonempty order]
  exact exactly_round_iff order

/-- Doubles and patterns that nothing is known of. -/
def noFloats : Engine := ⟨fun _ => none, fun _ => "", fun _ _ => false⟩

/-- Two even numbers above `2 ^ 53` are told apart. -/
theorem compare_exact_durations :
    compare noFloats [.duration 9007199254740994, .integer (-7)]
      (.observed (.duration 9007199254740992))
      .greater = true :=
  (@compare_exact_iff .greater noFloats [.duration 9007199254740994, .integer (-7)]
    (.duration 9007199254740992) nofun (by decide)).mpr fun _ =>
      ⟨9007199254740994, by decide, by decide, by decide +kernel⟩

/-- The neighbours `2 ^ 53` and `2 ^ 53 + 1` are rounded to the same double. -/
theorem compare_rounds : ¬ ∀ (engine : Engine) (observed : List Whole) (literal : Whole)
    (op : Comparison), observed ≠ [] → op ≠ .regex ∧ op ≠ .notRegex →
      compare engine (observed.map Whole.observed) (.observed literal.observed) op =
        exactly (observed.map Whole.toInt) literal.toInt op := by
  intro all
  have exact := all noFloats [.integer 9007199254740993]
    (.integer 9007199254740992) .equal nofun (by decide)
  exact absurd exact (by decide +kernel)

end ShardTelemetry.Traceql
