import Mathlib.Algebra.Order.Ring.Nat

/-!
# Errors

The variants of `TelemetryError` that the modelled functions raise, with their texts and fields.
-/

namespace ShardTelemetry

open List

/-- Opaque object-store version used for conditional publication. -/
abbrev Version := Nat

/-- A logical partition of a topic. -/
structure TopicPartition where
  topicId : Nat
  partitionId : Nat
  deriving DecidableEq, Repr

/-- What a record is about. -/
inductive TelemetrySignal where
  | logs
  | traces
  | metrics
  deriving DecidableEq

def TelemetrySignal.topicId : TelemetrySignal → Nat
  | .logs => 0x0000_0000_3156_5f53_474f_4c5f_4c45_5453
  | .traces => 0x0000_3156_5f53_4543_4152_545f_4c45_5453
  | .metrics => 0x0031_565f_5343_4952_5445_4d5f_4c45_5453

/-- Error returned by the modelled operations. -/
inductive TelemetryError where
  /-- A configuration value is out of its range. -/
  | invalidConfig (reason : String)
  /-- A bound of a signal's configuration is violated. -/
  | invalidConfiguration (reason : String)
  /-- An object-store or ownership rule was violated, or a store operation failed. -/
  | objectStore (reason : String)
  /-- A durable tier object is malformed or fails verification. -/
  | corruptTier (reason : String)
  /-- A local file could not be read or written. -/
  | storageIo (reason : String)
  /-- A conditional update observed another version than the expected one. -/
  | staleCatalog (expected observed : Option Version)
  /-- A checksummed envelope is malformed. -/
  | invalidTelemetryEnvelope (reason : String)
  /-- A record was sent to a stripe other than its owner. -/
  | wrongStripe (expected observed : Nat)
  /-- An append reused or regressed the offsets of its partition. -/
  | offsetOutOfOrder (partition : TopicPartition) (expected observed : Nat)
  /-- The next offset cannot be represented. -/
  | offsetExhausted (partition : TopicPartition)
  /-- The record was already visible in the hot index. -/
  | duplicateRecord (partition : TopicPartition) (offset : Nat)
  /-- A replay reused an offset with different log content. -/
  | conflictingRecord (partition : TopicPartition) (offset : Nat)
  /-- The immutable dictionary catalog could not be accessed. -/
  | dictionaryCatalogUnavailable
  /-- A published dictionary required by a block is no longer in its snapshot. -/
  | missingDictionary (dictionaryId : Nat)
  /-- Something cannot fit in its on-disk format. -/
  | recordTooLarge
  /-- A structural block or an ingest pack could not be decoded. -/
  | invalidBlockEncoding (reason : String)
  /-- The compression backend rejected a block. -/
  | compressionFailed (reason : String)
  /-- A lookup contains an invalid predicate or range. -/
  | invalidQuery (reason : String)
  /-- A committed frame of the sink journal failed validation. -/
  | corruptSinkJournal (reason : String)
  /-- The bounded sink journal cannot accept another transaction. -/
  | sinkJournalFull (bytes capacity : Nat)
  /-- A trace id is not exactly 16 nonzero bytes. -/
  | invalidTraceId
  /-- A span id is not exactly 8 nonzero bytes. -/
  | invalidSpanId
  /-- A metric point violates signal or temporal invariants. -/
  | invalidMetricSample (reason : String)
  /-- Remote Write supplied a different value at an existing timestamp. -/
  | metricSampleConflict (series timestampUnixNanos : Nat)
  /-- A protobuf payload could not be normalized. -/
  | invalidOtlpPayload (reason : String)
  deriving DecidableEq

/-- The text of an error, as far as it is built into another error's text. -/
def TelemetryError.display : TelemetryError → String
  | .invalidConfig reason => "invalid configuration: " ++ reason
  | .invalidConfiguration reason => "invalid telemetry configuration: " ++ reason
  | .objectStore reason => "object-store operation failed: " ++ reason
  | .corruptTier reason => "corrupt tier metadata or object: " ++ reason
  | .storageIo reason => "durable storage operation failed: " ++ reason
  | .staleCatalog expected observed =>
    "conditional catalog publication failed: expected object version " ++ reprStr expected ++
      ", observed " ++ reprStr observed
  | .invalidTelemetryEnvelope reason => "invalid STEL telemetry envelope: " ++ reason
  | .wrongStripe expected observed =>
    s!"record for shard {observed} was sent to stripe {expected}"
  | .offsetOutOfOrder partition expected observed =>
    "partition " ++ reprStr partition ++ s!" expected offset {expected}, observed {observed}"
  | .offsetExhausted partition =>
    "partition " ++ reprStr partition ++ " has exhausted its logical offsets"
  | .duplicateRecord partition offset => "duplicate record " ++ reprStr partition ++ s!"@{offset}"
  | .conflictingRecord partition offset =>
    "conflicting replay for record " ++ reprStr partition ++ s!"@{offset}"
  | .dictionaryCatalogUnavailable => "immutable dictionary catalog is unavailable"
  | .missingDictionary dictionaryId =>
    s!"dictionary {dictionaryId} is missing from the stripe snapshot"
  | .recordTooLarge => "log record cannot fit in the block encoding"
  | .invalidBlockEncoding reason => "invalid structural block encoding: " ++ reason
  | .compressionFailed reason => "block compression failed: " ++ reason
  | .invalidQuery reason => "invalid log query: " ++ reason
  | .corruptSinkJournal reason => "sink journal is corrupt: " ++ reason
  | .sinkJournalFull bytes capacity =>
    s!"sink journal requires {bytes} bytes, exceeding capacity {capacity}"
  | .invalidTraceId => "trace ID must be 16 nonzero bytes"
  | .invalidSpanId => "span ID must be 8 nonzero bytes"
  | .invalidMetricSample reason => "invalid metric sample: " ++ reason
  | .metricSampleConflict series timestampUnixNanos =>
    let digits := Nat.toDigits 16 series
    "conflicting Remote Write sample for series " ++
      String.ofList (replicate (32 - digits.length) '0' ++ digits) ++ s!" at {timestampUnixNanos}"
  | .invalidOtlpPayload reason => "invalid OTLP Logs protobuf payload: " ++ reason

/-- Result of a fallible operation. -/
abbrev TelemetryResult := Except TelemetryError

/-- Exit with an error when a check fails. -/
def ensure (condition : Bool) (error : TelemetryError) : TelemetryResult Unit :=
  if condition then .ok () else .error error

variable {error : TelemetryError} {f : α → TelemetryResult β} {items : List α}

@[simp] theorem ensure_eq_ok {condition : Bool} {u : Unit} :
    ensure condition error = .ok u ↔ condition = true := by
  unfold ensure
  split <;> simp_all

/-- `u64::MAX + 1`. -/
def u64Bound : Nat := 2 ^ 64

/-- `u64::checked_add`. -/
def checkedAdd (a b : Nat) : Option Nat := if a + b < u64Bound then some (a + b) else none

theorem checkedAdd_eq_some : checkedAdd a b = some c ↔ c = a + b ∧ a + b < u64Bound := by
  unfold checkedAdd
  split
  · simp_all [eq_comm]
  · simp_all

/-- `u64::saturating_add`. -/
def saturatingAdd (a b : Nat) : Nat := min (a + b) (u64Bound - 1)

/-- `Option::ok_or_else`. -/
def okOr (error : TelemetryError) : Option α → TelemetryResult α
  | some a => .ok a
  | none => .error error

@[simp] theorem okOr_eq_ok {x : Option α} {a : α} : okOr error x = .ok a ↔ x = some a := by
  cases x <;> simp [okOr]

theorem exists_of_isOk {x : TelemetryResult α} (h : x.isOk = true) : ∃ a, x = .ok a := by
  cases x with
  | ok a => exact ⟨a, rfl⟩
  | error error => cases h

/-- Peel one step off a computation that succeeded. -/
theorem bind_eq_ok {x : TelemetryResult α} {b : β} :
    (x >>= f) = .ok b ↔ ∃ a, x = .ok a ∧ f a = .ok b := by
  cases x <;> simp [bind, Except.bind]

theorem bind_ok {x : TelemetryResult α} {a : α} {b : β} (hx : x = .ok a) (hf : f a = .ok b) :
    (x >>= f) = .ok b :=
  bind_eq_ok.mpr ⟨a, hx, hf⟩

theorem ensure_bind_ok {condition : Bool} {f : Unit → TelemetryResult β} {b : β}
    (h : condition = true) (hf : f () = .ok b) : (ensure condition error >>= f) = .ok b :=
  bind_ok (ensure_eq_ok.mpr h) hf

/-- A computation for each element succeeds with a result for each. -/
theorem mapM_eq_ok {results : List β} :
    items.mapM f = .ok results ↔ Forall₂ (fun item res => f item = .ok res) items results := by
  constructor
  · intro h
    induction items generalizing results with
    | nil =>
      cases h
      exact .nil
    | cons item rest ih =>
      rw [mapM_cons] at h
      obtain ⟨first, done, h⟩ := bind_eq_ok.mp h
      obtain ⟨later, rests, h⟩ := bind_eq_ok.mp h
      cases h
      exact .cons done (ih rests)
  · intro h
    induction h with
    | nil => rfl
    | cons done _ ih =>
      rw [mapM_cons]
      exact bind_eq_ok.mpr ⟨_, done, bind_eq_ok.mpr ⟨_, ih, rfl⟩⟩

/-- One of the results is that of an element. -/
theorem exists_of_mapM_eq_ok {results : List β} (h : items.mapM f = .ok results)
    (mem : item ∈ items) : ∃ res ∈ results, f item = .ok res := by
  have related := mapM_eq_ok.mp h
  clear h
  induction related with
  | nil => cases mem
  | cons done _ ih =>
    rcases mem_cons.mp mem with rfl | mem
    · exact ⟨_, .head _, done⟩
    · obtain ⟨res, mem, done⟩ := ih mem
      exact ⟨res, .tail _ mem, done⟩

/-- A loop whose steps succeed. -/
theorem foldlM_eq_ok {f : β → α → TelemetryResult β} {g : β → α → β}
    (h : ∀ state, ∀ item ∈ items, f state item = .ok (g state item)) (state : β) :
    items.foldlM f state = .ok (items.foldl g state) := by
  induction items generalizing state with
  | nil => rfl
  | cons item rest ih =>
    rw [foldlM_cons, h state item mem_cons_self]
    exact ih (fun state item mem => h state item (.tail _ mem)) (g state item)

end ShardTelemetry
