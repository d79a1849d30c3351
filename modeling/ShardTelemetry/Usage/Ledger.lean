import Mathlib.Data.List.Sort
import ShardTelemetry.Lib.File
import ShardTelemetry.Loki.Error
import ShardTelemetry.Wire

/-!
# The embedded usage ledger

A ledger counts the uses of a fixed registry of features, in total and for the latest calendar
months.  Each accepted call commits a whole generation: the state is written into the slot of the
file that does not hold the current generation, payload first and then a checksummed header.  On
open, the valid slot with the higher generation is taken.

MessagePack, zstd, CRC32C, BLAKE3 and the calendar are parameters.  The filesystem reserves what was
asked for.  In `persistLocked` writes and syncs succeed; what the file is left with when one of them
fails, or when the process crashes, is said by `Crashed`.  The health counters are left out.
-/

namespace ShardTelemetry.Usage

open Bytes (toLE ofLE)

def ledgerMagic : List UInt8 := [0x53, 0x54, 0x55, 0x53, 0x41, 0x47, 0x45, 0x31]
def ledgerVersion : Nat := 1
def headerBytes : Nat := 68
def slotCount : Nat := 2
def codecRaw : UInt8 := 0
def codecZstd : UInt8 := 1
def maxFeatures : Nat := 4096
def maxFeatureUpdatesPerBatch : Nat := 4096
def maxFeatureIdBytes : Nat := 128
def maxMonthlyBuckets : Nat := 120

/-! ## Configuration -/

/-- A feature identifier, as its UTF-8 bytes. -/
abbrev FeatureId := List UInt8

/-- Deterministic treatment of feature identifiers outside the fixed registry. -/
inductive UnknownFeaturePolicy where
  | reject
  | accumulateOverflow
  deriving DecidableEq

structure EmbeddedUsageLedgerConfig where
  featureIds : List FeatureId
  monthlyBuckets : Nat
  unknownFeaturePolicy : UnknownFeaturePolicy
  maxFileBytes : Nat

/-- The registry that a configuration names, in the order of the identifiers. -/
def EmbeddedUsageLedgerConfig.normalized (config : EmbeddedUsageLedgerConfig) :
    LokiResult EmbeddedUsageLedgerConfig := do
  check (!config.featureIds.isEmpty)
    (.configuration "embedded usage ledger requires at least one feature ID")
  check (config.featureIds.length ≤ maxFeatures)
    (.configuration "embedded usage ledger supports at most 4096 feature IDs")
  check (config.monthlyBuckets ≤ maxMonthlyBuckets)
    (.configuration "embedded usage ledger supports at most 120 monthly buckets")
  check (config.maxFileBytes ≠ 0)
    (.configuration "embedded usage ledger max_file_bytes must be nonzero")
  check (config.featureIds.all fun id => !id.isEmpty && id.length ≤ maxFeatureIdBytes)
    (.configuration "embedded usage feature IDs must contain 1..=128 UTF-8 bytes")
  let featureIds := config.featureIds.insertionSort (· ≤ ·)
  check ((featureIds.zip featureIds.tail).all fun pair => pair.1 ≠ pair.2)
    (.configuration "embedded usage feature IDs must be unique")
  return { config with featureIds }

/-! ## State -/

structure PersistedMonth where
  monthIndex : Nat
  featureCounts : List Nat
  activeSeconds : Nat
  overflowFeatureEvents : Nat
  deriving DecidableEq

structure PersistedState where
  featureCounts : List Nat
  activeSeconds : Nat
  overflowFeatureEvents : Nat
  months : List PersistedMonth
  lastSuccessfulCheckpointUnixSeconds : Nat
  deriving DecidableEq

def PersistedMonth.empty (featureCount monthIndex : Nat) : PersistedMonth :=
  ⟨monthIndex, List.replicate featureCount 0, 0, 0⟩

def PersistedState.empty (featureCount : Nat) : PersistedState :=
  ⟨List.replicate featureCount 0, 0, 0, [], 0⟩

def PersistedState.maximumSized (featureCount monthlyBuckets : Nat) : PersistedState :=
  let counts := List.replicate featureCount (u64Bound - 1)
  ⟨counts, u64Bound - 1, u64Bound - 1,
    List.replicate monthlyBuckets ⟨2 ^ 32 - 1, counts, u64Bound - 1, u64Bound - 1⟩, u64Bound - 1⟩

def validateState (state : PersistedState) (featureCount monthlyBuckets : Nat) : LokiResult Unit :=
  check (state.featureCounts.length = featureCount && state.months.length ≤ monthlyBuckets &&
      state.months.all (·.featureCounts.length = featureCount) &&
      (state.months.zip state.months.tail).all fun pair => pair.1.monthIndex < pair.2.monthIndex)
    (.internal "embedded usage ledger state violates fixed-schema bounds")

/-! ## Libraries -/

/-- The bounds that deserialization puts on the lists of a state. -/
def PersistedState.Bounded (state : PersistedState) : Prop :=
  state.featureCounts.length ≤ maxFeatures ∧ state.months.length ≤ maxMonthlyBuckets ∧
    ∀ month ∈ state.months, month.featureCounts.length ≤ maxFeatures

/-- The libraries that the ledger uses: what they write they read back. -/
structure Libraries where
  toVec : PersistedState → List UInt8
  fromSlice : List UInt8 → Option PersistedState
  fromSlice_toVec : ∀ state, state.Bounded → fromSlice (toVec state) = some state
  zstd : Zstd
  crc32c : List UInt8 → UInt32
  blake3 : List UInt8 → List UInt8
  length_blake3 : ∀ bytes, (blake3 bytes).length = 32
  /-- The year and the month of a Unix second, where the calendar has one. -/
  fromTimestamp : Nat → Option (Nat × Nat)

variable (lib : Libraries)

/-! ## The ledger -/

structure EmbeddedUsageLedger where
  featureIds : List FeatureId
  monthlyBuckets : Nat
  unknownFeaturePolicy : UnknownFeaturePolicy
  maxFileBytes : Nat
  fileBytes : Nat
  slotBytes : Nat
  maxRawPayloadBytes : Nat
  configFingerprint : List UInt8

structure LedgerInner where
  file : List UInt8
  state : PersistedState
  activeSlot : Nat
  generation : Nat
  deriving DecidableEq

def configurationFingerprint (featureIds : List FeatureId) (monthlyBuckets : Nat)
    (policy : UnknownFeaturePolicy) : List UInt8 :=
  let policyByte : UInt8 := match policy with
    | .reject => 0
    | .accumulateOverflow => 1
  lib.blake3 ("shard-telemetry-embedded-usage-v1\x00".toUTF8.toList ++ toLE 8 monthlyBuckets ++
    [policyByte] ++ featureIds.flatMap fun id => toLE 8 id.length ++ id)

/-- The ledger of a configuration, if two slots of the largest state fit into its quota. -/
def EmbeddedUsageLedger.new (config : EmbeddedUsageLedgerConfig) :
    LokiResult EmbeddedUsageLedger := do
  let config ← config.normalized
  let maximumState := PersistedState.maximumSized config.featureIds.length config.monthlyBuckets
  let maxRawPayloadBytes := (lib.toVec maximumState).length
  let slotBytes := headerBytes + maxRawPayloadBytes
  let fileBytes := slotBytes * slotCount
  check (fileBytes ≤ config.maxFileBytes) (.configuration
    (s!"embedded usage ledger requires {fileBytes} bytes for {config.featureIds.length} features " ++
      s!"and {config.monthlyBuckets} monthly buckets, exceeding the {config.maxFileBytes}-byte " ++
      "hard quota"))
  return {
    featureIds := config.featureIds
    monthlyBuckets := config.monthlyBuckets
    unknownFeaturePolicy := config.unknownFeaturePolicy
    maxFileBytes := config.maxFileBytes
    fileBytes, slotBytes, maxRawPayloadBytes
    configFingerprint := configurationFingerprint lib config.featureIds config.monthlyBuckets
      config.unknownFeaturePolicy }

/-! ## Writing a generation -/

def encodeHeader (codec : UInt8) (generation payloadLen rawLen : Nat)
    (configFingerprint : List UInt8) (payloadCrc : UInt32) : LokiResult (List UInt8) := do
  check (payloadLen < 2 ^ 32) (.configuration "embedded usage payload exceeds v1 format")
  check (rawLen < 2 ^ 32) (.configuration "embedded usage payload exceeds v1 format")
  let header := ledgerMagic ++ toLE 2 ledgerVersion ++ [codec] ++ [0] ++ toLE 8 generation ++
    toLE 4 payloadLen ++ toLE 4 rawLen ++ configFingerprint ++ toLE 4 payloadCrc.toNat
  return header ++ toLE 4 (lib.crc32c header).toNat

/-- A state as it is written: its codec, the payload and its length before compression. -/
structure Encoded where
  codec : UInt8
  payload : List UInt8
  rawLen : Nat

variable (ledger : EmbeddedUsageLedger)

def encodeState (state : PersistedState) : LokiResult Encoded := do
  validateState state ledger.featureIds.length ledger.monthlyBuckets
  let raw := lib.toVec state
  check (raw.length ≤ ledger.maxRawPayloadBytes)
    (.configuration "embedded usage ledger state exceeds its precomputed hard quota")
  let compressed ← (lib.zstd.compress raw).mapError fun error =>
    .internal ("embedded usage ledger compression failed: " ++ error)
  let (codec, payload) :=
    if compressed.length < raw.length then (codecZstd, compressed) else (codecRaw, raw)
  check (payload.length ≤ ledger.maxRawPayloadBytes)
    (.configuration "embedded usage ledger encoded state exceeds its fixed slot")
  return ⟨codec, payload, raw.length⟩

/-- The slot that the next generation is written to. -/
def LedgerInner.targetSlot (inner : LedgerInner) : Nat := (inner.activeSlot + 1) % slotCount

def EmbeddedUsageLedger.slotOffset (slot : Nat) : Nat := ledger.slotBytes * slot

/-- The file with the payload of the next generation. -/
def LedgerInner.writePayload (inner : LedgerInner) (payload : List UInt8) : List UInt8 :=
  File.write inner.file (ledger.slotOffset inner.targetSlot + headerBytes) payload

/-- The next generation, with writes and syncs that succeed.  An error that comes after the payload
was written leaves it there. -/
def persistLocked (inner : LedgerInner) (state : PersistedState) : LokiResult Unit × LedgerInner :=
  match encodeState lib ledger state with
  | .error error => (.error error, inner)
  | .ok encoded =>
    match checkedAdd inner.generation 1 with
    | none => (.error (.internal "embedded usage ledger generation exhausted"), inner)
    | some generation =>
      let written := inner.writePayload ledger encoded.payload
      match encodeHeader lib encoded.codec generation encoded.payload.length encoded.rawLen
          ledger.configFingerprint (lib.crc32c encoded.payload) with
      | .error error => (.error error, { inner with file := written })
      | .ok header =>
        (.ok (),
          ⟨File.write written (ledger.slotOffset inner.targetSlot) header, state, inner.targetSlot,
          generation⟩)

/-! ## Opening -/

structure RecoveredSlot where
  state : PersistedState
  slot : Nat
  generation : Nat
  deriving DecidableEq

inductive SlotRead where
  | valid (slot : RecoveredSlot)
  | otherConfiguration
  | invalid
  deriving DecidableEq

def ledgerIo (reason : String) : LokiApiError :=
  .internal ("embedded usage ledger I/O failed: " ++ reason)

/-- `read_exact` -/
def readExact (file : List UInt8) (offset count : Nat) : LokiResult (List UInt8) :=
  orElse (ledgerIo "failed to fill whole buffer") (File.read file offset count)

/-- The bytes from one index up to another. -/
def slice (bytes : List UInt8) (start stop : Nat) : List UInt8 :=
  (bytes.drop start).take (stop - start)

/-- What a header says about the payload after it. -/
structure SlotHeader where
  codec : UInt8
  generation : Nat
  payloadLen : Nat
  rawLen : Nat
  payloadCrc : Nat
  deriving DecidableEq

/-- The header of a slot, or what the slot is without a header of this configuration. -/
def readHeader (header : List UInt8) : Except SlotRead SlotHeader :=
  if slice header 0 8 ≠ ledgerMagic then .error .invalid
  else if (lib.crc32c (slice header 0 64)).toNat ≠ ofLE (slice header 64 68) then .error .invalid
  else if ofLE (slice header 8 10) ≠ ledgerVersion then .error .invalid
  else if slice header 28 60 ≠ ledger.configFingerprint then .error .otherConfiguration
  else .ok ⟨header.getD 10 0, ofLE (slice header 12 20), ofLE (slice header 20 24),
    ofLE (slice header 24 28), ofLE (slice header 60 64)⟩

/-- The state that a payload stands for. -/
def decodePayload (header : SlotHeader) (payload : List UInt8) : Option PersistedState := do
  guard ((lib.crc32c payload).toNat = header.payloadCrc)
  let raw ←
    if header.codec = codecZstd then
      match lib.zstd.decompress payload header.rawLen with
      | .ok raw => if raw.length = header.rawLen then some raw else none
      | .error _ => none
    else if header.payloadLen = header.rawLen then some payload
    else none
  let state ← lib.fromSlice raw
  match validateState state ledger.featureIds.length ledger.monthlyBuckets with
  | .ok _ => some state
  | .error _ => none

def readSlot (file : List UInt8) (slot : Nat) : LokiResult SlotRead := do
  let header ← readExact file (ledger.slotOffset slot) headerBytes
  match readHeader lib ledger header with
  | .error read => return read
  | .ok header =>
    if header.codec ≠ codecRaw ∧ header.codec ≠ codecZstd then return .invalid
    else if ledger.maxRawPayloadBytes < header.payloadLen ∨
      ledger.maxRawPayloadBytes < header.rawLen then
      return .invalid
    else do
      let payload ← readExact file (ledger.slotOffset slot + headerBytes) header.payloadLen
      match decodePayload lib ledger header payload with
      | some state => return .valid ⟨state, slot, header.generation⟩
      | none => return .invalid

def slotsArePristine (file : List UInt8) : LokiResult Bool := do
  let first ← readExact file (ledger.slotOffset 0) ledgerMagic.length
  if first.any (· ≠ 0) then return false
  else do
    let second ← readExact file (ledger.slotOffset 1) ledgerMagic.length
    return !second.any (· ≠ 0)

def SlotRead.recovered : SlotRead → Option RecoveredSlot
  | .valid slot => some slot
  | _ => none

/-- `max_by_key`: of two slots with one generation, the last. -/
def newest : Option RecoveredSlot → Option RecoveredSlot → Option RecoveredSlot
  | some first, some second =>
    if second.generation < first.generation then some first else some second
  | some first, none => some first
  | none, second => second

def recover (file : List UInt8) : LokiResult RecoveredSlot := do
  let first ← readSlot lib ledger file 0
  let second ← readSlot lib ledger file 1
  orElse (if first = .otherConfiguration ∨ second = .otherConfiguration then
      .configuration "embedded usage ledger feature registry or monthly policy changed"
    else .internal "embedded usage ledger contains no valid checksummed generation")
    (newest first.recovered second.recovered)

/-- Writing the first generation. -/
def firstGeneration (file : List UInt8) (now : Nat) : LokiResult LedgerInner :=
  let empty := PersistedState.empty ledger.featureIds.length
  match persistLocked lib ledger ⟨file, empty, 1, 0⟩
      { empty with lastSuccessfulCheckpointUnixSeconds := now } with
  | (.ok _, inner) => .ok inner
  | (.error error, _) => .error error

/-- Opening a ledger over what its file holds; a new file is empty. -/
def openFile (file : List UInt8) (now : Nat) : LokiResult LedgerInner := do
  if file = [] then firstGeneration lib ledger (List.replicate ledger.fileBytes 0) now
  else do
    check (file.length = ledger.fileBytes) (.configuration
      (s!"embedded usage ledger has {file.length} bytes but this configuration requires " ++
        s!"{ledger.fileBytes}"))
    let pristine ← slotsArePristine ledger file
    if pristine then firstGeneration lib ledger file now
    else do
      let recovered ← recover lib ledger file
      return ⟨file, recovered.state, recovered.slot, recovered.generation⟩

/-! ## Recording -/

def addCounter (left right : Nat) : LokiResult Nat :=
  orElse (.badRequest "embedded usage counter overflow") (checkedAdd left right)

/-- The increments of a batch, one for each feature of the registry, and those of unknown
features. -/
structure Staged where
  increments : List Nat
  overflowed : Nat

def stageUpdate (staged : Staged) (update : FeatureId × Nat) : LokiResult Staged :=
  if update.2 = 0 then return staged
  else if maxFeatureIdBytes < update.1.length then
    match ledger.unknownFeaturePolicy with
    | .reject => .error (.badRequest
        "unknown embedded usage feature IDs must contain at most 128 UTF-8 bytes")
    | .accumulateOverflow => do
      let overflowed ← addCounter staged.overflowed update.2
      return { staged with overflowed }
  else
    match ledger.featureIds.idxOf? update.1 with
    | some index => do
      let increment ← addCounter (staged.increments.getD index 0) update.2
      return { staged with increments := staged.increments.set index increment }
    | none =>
      match ledger.unknownFeaturePolicy with
      | .reject => .error (.badRequest "feature ID is not in the embedded usage registry")
      | .accumulateOverflow => do
        let overflowed ← addCounter staged.overflowed update.2
        return { staged with overflowed }

/-- The updates of a batch, after a number of others. -/
def stageUpdates : Nat → Staged → List (FeatureId × Nat) → LokiResult Staged
  | _, staged, [] => .ok staged
  | count, staged, update :: updates => do
    check (count + 1 ≤ maxFeatureUpdatesPerBatch)
      (.badRequest "embedded usage batches support at most 4096 feature updates")
    let staged ← stageUpdate ledger staged update
    stageUpdates (count + 1) staged updates

def calendarMonthIndex (timestamp : Nat) : LokiResult Nat := do
  check (timestamp < 2 ^ 63)
    (.badRequest "embedded usage timestamp is outside the supported calendar")
  let (year, month) ← orElse
    (.badRequest "embedded usage timestamp is outside the supported calendar")
      (lib.fromTimestamp timestamp)
  return min (min (year * 12) (2 ^ 32 - 1) + (month - 1)) (2 ^ 32 - 1)

/-- The months with a bucket for the given one, and its place unless it is too old. -/
def prepareMonth (months : List PersistedMonth) (monthIndex : Nat) :
    List PersistedMonth × Option Nat :=
  if ledger.monthlyBuckets = 0 then (months, none)
  else
    let position := (months.takeWhile (·.monthIndex < monthIndex)).length
    let fresh := PersistedMonth.empty ledger.featureIds.length monthIndex
    if months[position]?.any (·.monthIndex = monthIndex) then (months, some position)
    else if months.length < ledger.monthlyBuckets
      then (months.insertIdx position fresh, some position)
    else if position = 0 then (months, none)
    else (months.tail.insertIdx (position - 1) fresh, some (position - 1))

/-- A change of the bucket at a place. -/
def onMonth (position : Option Nat) (state : PersistedState)
    (change : PersistedMonth → LokiResult PersistedMonth) : LokiResult PersistedState :=
  match position with
  | none => .ok state
  | some position =>
    match state.months[position]? with
    | none => .ok state
    | some month => do
      let month ← change month
      return { state with months := state.months.set position month }

def addActiveSeconds (position : Option Nat) (seconds : Nat) (state : PersistedState) :
    LokiResult PersistedState := do
  let activeSeconds ← addCounter state.activeSeconds seconds
  onMonth position { state with activeSeconds } fun month => do
    let activeSeconds ← addCounter month.activeSeconds seconds
    return { month with activeSeconds }

def addFeature (position : Option Nat) (state : PersistedState) (increment : Nat × Nat) :
    LokiResult PersistedState :=
  if increment.1 = 0 then return state
  else do
    let count ← addCounter (state.featureCounts.getD increment.2 0) increment.1
    onMonth position { state with featureCounts := state.featureCounts.set increment.2 count }
      fun month => do
        let count ← addCounter (month.featureCounts.getD increment.2 0) increment.1
        return { month with featureCounts := month.featureCounts.set increment.2 count }

def addOverflow (position : Option Nat) (events : Nat) (state : PersistedState) :
    LokiResult PersistedState := do
  let overflowFeatureEvents ← addCounter state.overflowFeatureEvents events
  onMonth position { state with overflowFeatureEvents } fun month => do
    let overflowFeatureEvents ← addCounter month.overflowFeatureEvents events
    return { month with overflowFeatureEvents }

/-- A call that records something. -/
structure Call where
  /-- The wall clock. -/
  now : Nat
  timestampUnixSeconds : Nat
  activeSeconds : Nat
  featureIncrements : List (FeatureId × Nat)

def Staged.isEmpty (staged : Staged) (activeSeconds : Nat) : Bool :=
  activeSeconds = 0 && staged.overflowed = 0 && staged.increments.all (· = 0)

/-- The month of a timestamp, which nothing depends on if no months are kept. -/
def bucketIndex (timestamp : Nat) : LokiResult Nat :=
  if ledger.monthlyBuckets = 0 then .ok 0 else calendarMonthIndex lib timestamp

/-- The state with a staged batch added. -/
def addStaged (call : Call) (staged : Staged) (state : PersistedState) :
    LokiResult PersistedState := do
  let monthIndex ← bucketIndex lib ledger call.timestampUnixSeconds
  let (months, position) := prepareMonth ledger state.months monthIndex
  let state ← addActiveSeconds position call.activeSeconds { state with months }
  let state ← staged.increments.zipIdx.foldlM (addFeature position) state
  let state ← addOverflow position staged.overflowed state
  let lastSuccessfulCheckpointUnixSeconds := max call.now state.lastSuccessfulCheckpointUnixSeconds
  return { state with lastSuccessfulCheckpointUnixSeconds }

def recordBatchAt (inner : LedgerInner) (call : Call) : LokiResult Unit × LedgerInner :=
  match stageUpdates ledger 0 ⟨List.replicate ledger.featureIds.length 0, 0⟩ call.featureIncrements
      with
  | .error error => (.error error, inner)
  | .ok staged =>
    if staged.isEmpty call.activeSeconds then (.ok (), inner)
    else match addStaged lib ledger call staged inner.state with
      | .error error => (.error error, inner)
      | .ok state => persistLocked lib ledger inner state

end ShardTelemetry.Usage
