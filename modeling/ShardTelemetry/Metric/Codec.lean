import Mathlib.Data.List.AList
import Mathlib.Data.Prod.Lex
import ShardTelemetry.Lib.Bits
import ShardTelemetry.Lib.Varint
import ShardTelemetry.Wire

/-!
# The metric chunk codec

A chunk holds the points of one series.  It has a header, four sections (offsets, timestamps, values
and sidecars) and a BLAKE3 digest.  The encoding of the values depends on their kinds; in a lane of
doubles each value is the exclusive or with the one before, and timestamps are written as
differences of differences with runs.

Pco, zstd, MessagePack, BLAKE3 and the unstable sort of the standard library are parameters that
carry the contract they are relied on for (`Backend`).  Identities, attributes and exemplars are
only compared and passed on, so their types are parameters as well.
-/

namespace ShardTelemetry.Metric

open Bytes Varint

/-! ## Points -/

inductive NumberValue where
  | integer (value : Int64)
  | doubleBits (bits : BitVec 64)
  deriving DecidableEq

inductive HistogramCount where
  | integer (count : UInt64)
  | doubleBits (bits : BitVec 64)
  deriving DecidableEq

structure ExplicitHistogramValue where
  count : HistogramCount
  sumBits : Option (BitVec 64)
  bucketCounts : List HistogramCount
  explicitBoundsBits : List (BitVec 64)
  minBits : Option (BitVec 64)
  maxBits : Option (BitVec 64)
  resetHint : Int32
  deriving DecidableEq

structure HistogramBucketSpan where
  offset : Int32
  length : UInt32
  deriving DecidableEq

structure ExponentialHistogramBuckets where
  spans : List HistogramBucketSpan
  bucketCounts : List HistogramCount
  deriving DecidableEq

structure ExponentialHistogramValue where
  count : HistogramCount
  sumBits : Option (BitVec 64)
  scale : Int32
  zeroCount : HistogramCount
  positive : Option ExponentialHistogramBuckets
  negative : Option ExponentialHistogramBuckets
  minBits : Option (BitVec 64)
  maxBits : Option (BitVec 64)
  zeroThresholdBits : BitVec 64
  resetHint : Int32
  deriving DecidableEq

structure SummaryQuantileValue where
  quantileBits : BitVec 64
  valueBits : BitVec 64
  deriving DecidableEq

structure SummaryValue where
  count : UInt64
  sumBits : BitVec 64
  quantiles : List SummaryQuantileValue
  deriving DecidableEq

inductive MetricValue where
  | gauge (value : NumberValue)
  | sum (value : NumberValue)
  | explicitHistogram (value : ExplicitHistogramValue)
  | exponentialHistogram (value : ExponentialHistogramValue)
  | summary (value : SummaryValue)
  deriving DecidableEq

/-- How points of one time are told apart. -/
inductive MetricIngestProtocol where
  | otlp
  | remoteWrite
  deriving DecidableEq

/-- The address of a point, at the widths it has in a chunk. -/
structure MetricRecordRef where
  signal : TelemetrySignal
  topicId : BitVec 128
  partitionId : UInt32
  offset : UInt64
  deriving DecidableEq

structure DurableMetricPoint (Identity Attributes Exemplars : Type) where
  streamShardId : UInt32
  recordRef : MetricRecordRef
  identity : Identity
  description : String
  metadata : Attributes
  startTimeUnixNanos : UInt64
  timestampUnixNanos : UInt64
  flags : UInt32
  value : MetricValue
  exemplars : Exemplars
  deriving DecidableEq

structure MetricPointSidecar where
  descriptionId : UInt32
  metadataId : UInt32
  startTimeUnixNanos : UInt64
  flags : UInt32
  exemplarsId : UInt32
  deriving DecidableEq

structure MetricChunkSidecars (Identity Attributes Exemplars : Type) where
  identity : Identity
  descriptions : List String
  metadataSets : List Attributes
  exemplarSets : List Exemplars
  points : List MetricPointSidecar
  deriving DecidableEq

/-- The key by which points are sorted. -/
def DurableMetricPoint.sortKey {I A E : Type} (point : DurableMetricPoint I A E) : Nat ×ₗ Nat :=
  toLex (point.timestampUnixNanos.toNat, point.recordRef.offset.toNat)

/-! ## What the codec relies on -/

/-- `simple_compress` and `simple_decompress_into` of Pco for one type of number.  Decompression
says how much of a buffer was filled and whether the input was used up. -/
structure Pco (α : Type) where
  simpleCompress : List α → Except String (List UInt8)
  simpleDecompressInto : List UInt8 → Nat → Option (List α × Nat × Bool)
  lossless : ∀ values bytes, simpleCompress values = .ok bytes →
    simpleDecompressInto bytes values.length = some (values, values.length, true)

/-- `rmp_serde::to_vec` and `rmp_serde::from_slice` for one type. -/
structure Messagepack (α : Type) where
  toVec : α → Except String (List UInt8)
  fromSlice : List UInt8 → Option α
  lossless : ∀ value bytes, toVec value = .ok bytes → fromSlice bytes = some value

structure Backend (I A E : Type) where
  digest : List UInt8 → List UInt8
  length_digest : ∀ contents, (digest contents).length = 32
  fingerprint : I → BitVec 128
  offsets : Pco UInt64
  integers : Pco Int64
  zstd : Zstd
  explicitHistogram : Messagepack ExplicitHistogramValue
  exponentialHistogram : Messagepack ExponentialHistogramValue
  summary : Messagepack SummaryValue
  explicitHistograms : Messagepack (List ExplicitHistogramValue)
  exponentialHistograms : Messagepack (List ExponentialHistogramValue)
  summaries : Messagepack (List SummaryValue)
  sidecars : Messagepack (MetricChunkSidecars I A E)
  /-- `sort_unstable_by_key`: points with equal keys come in any order. -/
  sortUnstable : List (DurableMetricPoint I A E) → List (DurableMetricPoint I A E)
  sortUnstable_perm : ∀ points, (sortUnstable points).Perm points
  sortUnstable_pairwise : ∀ points,
    (sortUnstable points).Pairwise fun left right => left.sortKey ≤ right.sortKey

/-! ## Sections, bytes and integers -/

def appendSection (contents : List UInt8) : TelemetryResult (List UInt8) := do
  let length ← lengthBytes contents.length
  return length ++ contents

def readSection : Reader TelemetryError (List UInt8) := do
  let length ← uint 4 (invalid "truncated metric section length")
  take length (invalid "truncated metric section")

def readByte : Reader TelemetryError UInt8 := byte (invalid "truncated metric value")

def writeVarint (value : Nat) : List UInt8 := write 64 value

def readVarint : Reader TelemetryError Nat :=
  read 64 (invalid "truncated metric value") (invalid "metric varint overflow") none

def writeVarint128 (value : Nat) : List UInt8 := write 128 value

def readVarint128 : Reader TelemetryError Nat :=
  read 128 (invalid "truncated metric value") (invalid "metric wide varint overflow") none

def appendMessagepack {α : Type} (pack : Messagepack α) (value : α) :
    TelemetryResult (List UInt8) := do
  let bytes ← compressing (pack.toVec value)
  appendSection bytes

def readMessagepack {α : Type} (pack : Messagepack α) : Reader TelemetryError α := do
  let contents ← readSection
  lift (okOr (invalid "invalid metric value payload") (pack.fromSlice contents))

/-! ## Integers -/

def compressU64 (pco : Pco UInt64) (values : List UInt64) : TelemetryResult (List UInt8) :=
  compressing (pco.simpleCompress values)

/-- Fill a buffer of the expected length, and check that it was filled. -/
def decompressInto {α : Type} (pco : Pco α) (encoded : List UInt8) (count : Nat)
    (failed mismatch : String) : TelemetryResult (List α) := do
  let (values, processed, finished) ← okOr (invalid failed) (pco.simpleDecompressInto encoded count)
  ensure (processed = count && finished) (invalid mismatch)
  return values

def decompressU64 (pco : Pco UInt64) (encoded : List UInt8) (count : Nat) :
    TelemetryResult (List UInt64) :=
  decompressInto pco encoded count "invalid metric Pco lane" "metric Pco lane count mismatch"

def encodeIntegerValueLane (pco : Pco Int64) (codec : UInt8) (values : List Int64) :
    TelemetryResult (List UInt8) := do
  let compressed ← compressing (pco.simpleCompress values)
  return codec :: compressed

def decodeIntegerValueLane (pco : Pco Int64) (encoded : List UInt8) (count : Nat) :
    TelemetryResult (List Int64) :=
  decompressInto pco encoded count "invalid metric integer Pco lane"
    "metric integer Pco lane count mismatch"

/-! ## Bits -/

structure MetricBitWriter where
  bytes : List UInt8
  /-- How many bits of the last byte are used. -/
  used : Nat

namespace MetricBitWriter

def new : MetricBitWriter := ⟨[], 8⟩

def writeBit (writer : MetricBitWriter) (value : Bool) : MetricBitWriter :=
  let writer := if writer.used = 8 then ⟨writer.bytes ++ [0], 0⟩ else writer
  let bytes :=
    if value then
      writer.bytes.modify (writer.bytes.length - 1) (· ||| (1 <<< UInt8.ofNat (7 - writer.used)))
    else writer.bytes
  ⟨bytes, writer.used + 1⟩

/-- The low bits of a value, from the highest of them down. -/
def writeBits (writer : MetricBitWriter) (value : BitVec 64) : Nat → MetricBitWriter
  | 0 => writer
  | shift + 1 => (writer.writeBit (value.getLsbD shift)).writeBits value shift

end MetricBitWriter

structure MetricBitReader where
  bytes : List UInt8
  bit : Nat

namespace MetricBitReader

/-- A computation that reads bits. -/
abbrev Reading (α : Type) : Type := StateT MetricBitReader TelemetryResult α

def readBit : Reading Bool := fun reader =>
  if reader.bytes.length * 8 ≤ reader.bit then .error (invalid "truncated metric double lane")
  else
    let value := (reader.bytes.getD (reader.bit / 8) 0).toBitVec.getMsbD (reader.bit % 8)
    .ok (value, { reader with bit := reader.bit + 1 })

/-- Shift bits into a value. -/
def readBitsFrom (value : BitVec 64) : Nat → Reading (BitVec 64)
  | 0 => pure value
  | bits + 1 => do
    let bit ← readBit
    readBitsFrom (value.shiftConcat bit) bits

def readBits (bits : Nat) : Reading (BitVec 64) := readBitsFrom 0 bits

/-- The padding is less than a byte, and it is zero. -/
def finish (reader : MetricBitReader) : TelemetryResult Unit := do
  ensure (reader.bytes.length * 8 - reader.bit < 8) (invalid "trailing metric double-lane bytes")
  ensure ((Bits.ofBytes reader.bytes).drop reader.bit |>.all (· = false))
    (invalid "nonzero metric double-lane padding")

end MetricBitReader

/-! ## Doubles -/

/-- The leading and the trailing zeros of the last window that was written. -/
abbrev Window := Nat × Nat

/-- Write one value after another one. -/
def encodeXor (writer : MetricBitWriter) (previous : BitVec 64) (window : Option Window)
    (value : BitVec 64) : MetricBitWriter × Option Window :=
  let xor := value ^^^ previous
  if xor = 0 then (writer.writeBit false, window)
  else
    let writer := writer.writeBit true
    let leading := min xor.clz.toNat 31
    let trailing := xor.ctz.toNat
    match window.filter fun window => window.1 ≤ leading && window.2 ≤ trailing with
    | some (windowLeading, windowTrailing) =>
      ((writer.writeBit false).writeBits (xor >>> windowTrailing)
        (64 - windowLeading - windowTrailing), window)
    | none =>
      let significant := 64 - leading - trailing
      ((((writer.writeBit true).writeBits (BitVec.ofNat 64 leading) 5).writeBits
        (BitVec.ofNat 64 significant &&& 0x3f) 6).writeBits (xor >>> trailing) significant,
        some (leading, trailing))

/-- The loop over the values after the first. -/
def encodeXors : MetricBitWriter → BitVec 64 → Option Window → List (BitVec 64) → MetricBitWriter
  | writer, _, _, [] => writer
  | writer, previous, window, value :: rest =>
    let next := encodeXor writer previous window value
    encodeXors next.1 value next.2 rest

def encodeDoubleValueLane (codec : UInt8) : List (BitVec 64) → TelemetryResult (List UInt8)
  | [] => .error (invalid "metric double lane is empty")
  | first :: rest =>
    .ok (codec :: toLE 8 first.toNat ++ (encodeXors .new first none rest).bytes)

section Decode

open MetricBitReader

/-- The window of the next value: the one before, or a new one. -/
def decodeWindow (window : Option Window) : Reading Window := do
  if !(← readBit) then
    match window with
    | some window => return window
    | none => throw (invalid "metric double lane reuses a missing XOR window")
  else
    let leading ← readBits 5
    let encodedSignificant ← readBits 6
    let significant := if encodedSignificant = 0 then 64 else encodedSignificant.toNat
    if 64 < leading.toNat + significant then throw (invalid "invalid metric double XOR window")
    else return (leading.toNat, 64 - leading.toNat - significant)

/-- The next value, and the window after it. -/
def decodeXor (previous : BitVec 64) (window : Option Window) :
    Reading (BitVec 64 × Option Window) := do
  if !(← readBit) then return (previous, window)
  else
    let (leading, trailing) ← decodeWindow window
    if 64 ≤ leading + trailing then throw (invalid "invalid metric double XOR window")
    else
      let bits ← readBits (64 - leading - trailing)
      return (previous ^^^ (bits <<< trailing), some (leading, trailing))

/-- The loop over the values after the first. -/
def decodeXors : Nat → BitVec 64 → Option Window → Reading (List (BitVec 64))
  | 0, _, _ => pure []
  | count + 1, previous, window => do
    let (value, window) ← decodeXor previous window
    let rest ← decodeXors count value window
    return value :: rest

def decodeDoubleValueLane (encoded : List UInt8) (count : Nat) :
    TelemetryResult (List (BitVec 64)) := do
  ensure (count ≠ 0 && 8 ≤ encoded.length) (invalid "invalid metric double lane")
  let first := BitVec.ofNat 64 (ofLE (encoded.take 8))
  let (rest, reader) ← decodeXors (count - 1) first none ⟨encoded.drop 8, 0⟩
  reader.finish
  return first :: rest

end Decode

/-! ## Histograms and summaries -/

def valueLaneLimit : Nat := 64 * 1024 * 1024

section Zstd

variable {α : Type} (zstd : Zstd) (pack : Messagepack (List α))

def encodeZstdValueLane (codec : UInt8) (values : List α) : TelemetryResult (List UInt8) := do
  let raw ← compressing (pack.toVec values)
  let compressed ← compressing (zstd.compress raw)
  let length ← lengthBytes raw.length
  return codec :: length ++ compressed

def decodeZstdValueLane (encoded : List UInt8) (count : Nat) : TelemetryResult (List α) := do
  ensure (4 ≤ encoded.length) (invalid "truncated compressed metric value lane")
  let rawLength := ofLE (encoded.take 4)
  ensure (rawLength ≤ valueLaneLimit) (invalid "metric value lane exceeds safety limit")
  let raw ← decoding (invalid "invalid metric value compression")
    (zstd.decompress (encoded.drop 4) rawLength)
  let values ← okOr (invalid "invalid metric value lane") (pack.fromSlice raw)
  ensure (values.length = count) (invalid "metric value lane count mismatch")
  return values

end Zstd

/-! ## Values of mixed kinds -/

def encodeNumber (previousFloat : BitVec 64) : NumberValue → List UInt8 × BitVec 64
  | .integer value => (0 :: writeVarint (zigzag value.toBitVec).toNat, previousFloat)
  | .doubleBits bits => (1 :: writeVarint (bits ^^^ previousFloat).toNat, bits)

def decodeNumber (previousFloat : BitVec 64) : Reader TelemetryError (NumberValue × BitVec 64) := do
  let tag ← readByte
  if tag = 0 then
    let value ← readVarint
    return (.integer (Int64.ofBitVec (unzigzag (BitVec.ofNat 64 value))), previousFloat)
  else if tag = 1 then
    let value ← readVarint
    let bits := BitVec.ofNat 64 value ^^^ previousFloat
    return (.doubleBits bits, bits)
  else throw (invalid "invalid metric number tag")

section Values

variable {I A E : Type} (backend : Backend I A E)

def encodeTagged (previousFloat : BitVec 64) :
    MetricValue → TelemetryResult (List UInt8 × BitVec 64)
  | .gauge value =>
    let (encoded, previousFloat) := encodeNumber previousFloat value
    .ok (0 :: encoded, previousFloat)
  | .sum value =>
    let (encoded, previousFloat) := encodeNumber previousFloat value
    .ok (1 :: encoded, previousFloat)
  | .explicitHistogram value => do
    let encoded ← appendMessagepack backend.explicitHistogram value
    return (2 :: encoded, previousFloat)
  | .exponentialHistogram value => do
    let encoded ← appendMessagepack backend.exponentialHistogram value
    return (3 :: encoded, previousFloat)
  | .summary value => do
    let encoded ← appendMessagepack backend.summary value
    return (4 :: encoded, previousFloat)

/-- The loop over values of mixed kinds. -/
def encodeMixed : BitVec 64 → List MetricValue → TelemetryResult (List UInt8)
  | _, [] => .ok []
  | previousFloat, value :: rest => do
    let (encoded, previousFloat) ← encodeTagged backend previousFloat value
    let encodedRest ← encodeMixed previousFloat rest
    return encoded ++ encodedRest

def decodeTagged (previousFloat : BitVec 64) : Reader TelemetryError (MetricValue × BitVec 64) := do
  let tag ← readByte
  if tag = 0 then
    let (value, previousFloat) ← decodeNumber previousFloat
    return (.gauge value, previousFloat)
  else if tag = 1 then
    let (value, previousFloat) ← decodeNumber previousFloat
    return (.sum value, previousFloat)
  else if tag = 2 then
    let value ← readMessagepack backend.explicitHistogram
    return (.explicitHistogram value, previousFloat)
  else if tag = 3 then
    let value ← readMessagepack backend.exponentialHistogram
    return (.exponentialHistogram value, previousFloat)
  else if tag = 4 then
    let value ← readMessagepack backend.summary
    return (.summary value, previousFloat)
  else throw (invalid "invalid metric value tag")

def decodeMixed : Nat → BitVec 64 → Reader TelemetryError (List MetricValue)
  | 0, _ => pure []
  | count + 1, previousFloat => do
    let (value, previousFloat) ← decodeTagged backend previousFloat
    let rest ← decodeMixed count previousFloat
    return value :: rest

/-! ## The lane of values -/

/-- The integer of a gauge or of a sum. -/
def numberOf (gauge sum : Bool) : MetricValue → Option Int64
  | .gauge (.integer value) => if gauge then some value else none
  | .sum (.integer value) => if sum then some value else none
  | _ => none

def doubleOf (gauge : Bool) : MetricValue → Option (BitVec 64)
  | .gauge (.doubleBits bits) => if gauge then some bits else none
  | .sum (.doubleBits bits) => if gauge then none else some bits
  | _ => none

def explicitHistogramOf : MetricValue → Option ExplicitHistogramValue
  | .explicitHistogram value => some value
  | _ => none

def exponentialHistogramOf : MetricValue → Option ExponentialHistogramValue
  | .exponentialHistogram value => some value
  | _ => none

def summaryOf : MetricValue → Option SummaryValue
  | .summary value => some value
  | _ => none

def collectNumberLane (values : List MetricValue) (gauge sum : Bool) : Option (List Int64) :=
  values.mapM (numberOf gauge sum)

def collectDoubleLane (values : List MetricValue) (gauge : Bool) : Option (List (BitVec 64)) :=
  values.mapM (doubleOf gauge)

/-- The encoding is the first one that fits all values. -/
def encodeMetricValues (values : List MetricValue) : TelemetryResult (List UInt8) :=
  match collectNumberLane values true false with
  | some integers => encodeIntegerValueLane backend.integers 1 integers
  | none =>
  match collectDoubleLane values true with
  | some doubles => encodeDoubleValueLane 2 doubles
  | none =>
  match collectNumberLane values false true with
  | some integers => encodeIntegerValueLane backend.integers 3 integers
  | none =>
  match collectDoubleLane values false with
  | some doubles => encodeDoubleValueLane 4 doubles
  | none =>
  match values.mapM explicitHistogramOf with
  | some histograms => encodeZstdValueLane backend.zstd backend.explicitHistograms 5 histograms
  | none =>
  match values.mapM exponentialHistogramOf with
  | some histograms => encodeZstdValueLane backend.zstd backend.exponentialHistograms 6 histograms
  | none =>
  match values.mapM summaryOf with
  | some summaries => encodeZstdValueLane backend.zstd backend.summaries 7 summaries
  | none => do
    let encoded ← encodeMixed backend 0 values
    return 0 :: encoded

def decodeMetricValues (encoded : List UInt8) (count : Nat) : TelemetryResult (List MetricValue) :=
  match encoded with
  | [] => .error (invalid "metric value lane is empty")
  | codec :: payload =>
    match codec with
    | 1 => do
      let values ← decodeIntegerValueLane backend.integers payload count
      return values.map fun value => .gauge (.integer value)
    | 2 => do
      let values ← decodeDoubleValueLane payload count
      return values.map fun bits => .gauge (.doubleBits bits)
    | 3 => do
      let values ← decodeIntegerValueLane backend.integers payload count
      return values.map fun value => .sum (.integer value)
    | 4 => do
      let values ← decodeDoubleValueLane payload count
      return values.map fun bits => .sum (.doubleBits bits)
    | 5 => do
      let values ← decodeZstdValueLane backend.zstd backend.explicitHistograms payload count
      return values.map .explicitHistogram
    | 6 => do
      let values ← decodeZstdValueLane backend.zstd backend.exponentialHistograms payload count
      return values.map .exponentialHistogram
    | 7 => do
      let values ← decodeZstdValueLane backend.zstd backend.summaries payload count
      return values.map .summary
    | 0 => do
      let (values, rest) ← decodeMixed backend count 0 payload
      ensure rest.isEmpty (invalid "trailing metric value bytes")
      return values
    | _ => .error (invalid "invalid metric value-lane codec")

end Values

/-! ## Timestamps -/

/-- `checked_sub` -/
def deltaAfter (previous timestamp : Nat) : TelemetryResult Nat :=
  if previous ≤ timestamp then .ok (timestamp - previous)
  else .error (invalid "metric timestamps are not sorted")

/-- How far a run of equal differences goes, and the timestamp at its end. -/
def extendRun (delta : Nat) : Nat → Nat → List Nat → TelemetryResult (Nat × Nat)
  | run, runPrevious, [] => .ok (run, runPrevious)
  | run, runPrevious, candidate :: rest => do
    let candidateDelta ← deltaAfter runPrevious candidate
    if candidateDelta ≠ delta then return (run, runPrevious)
    else extendRun delta (run + 1) candidate rest

/-- The token for a difference of differences; zero is for runs. -/
def deltaToken (deltaOfDelta : Int) : TelemetryResult Nat :=
  let token := (zigzag (BitVec.ofInt 128 deltaOfDelta)).toNat
  if token + 1 < 2 ^ 128 then .ok (token + 1) else .error .recordTooLarge

/-- The loop over the timestamps after the second; the number says how many of the next ones belong
to a run that is written already. -/
def encodeDeltas (previous previousDelta : Nat) : Nat → List Nat → TelemetryResult (List UInt8)
  | _, [] => .ok []
  | covered + 1, _ :: rest => encodeDeltas previous previousDelta covered rest
  | 0, timestamp :: rest => do
    let delta ← deltaAfter previous timestamp
    let deltaOfDelta := (delta : Int) - previousDelta
    if deltaOfDelta = 0 then
      let (run, runPrevious) ← extendRun delta 1 timestamp rest
      let encoded ← encodeDeltas runPrevious previousDelta (run - 1) rest
      return writeVarint128 0 ++ writeVarint run ++ encoded
    else
      let token ← deltaToken deltaOfDelta
      let encoded ← encodeDeltas timestamp delta 0 rest
      return writeVarint128 token ++ encoded

def encodeTimestampDeltaOfDelta : List Nat → TelemetryResult (List UInt8)
  | [] => .ok []
  | [first] => .ok (toLE 8 first)
  | first :: second :: rest => do
    let delta ← deltaAfter first second
    let encoded ← encodeDeltas second delta 0 rest
    return toLE 8 first ++ writeVarint delta ++ encoded

/-- `checked_add` of a difference. -/
def timestampAfter (previous delta : Nat) : TelemetryResult Nat :=
  okOr (invalid "metric timestamp overflow") (checkedAdd previous delta)

/-- The difference after one that changes by what a token says. -/
def deltaOfToken (previousDelta token : Nat) : TelemetryResult Nat :=
  let delta := (previousDelta : Int) + (unzigzag (BitVec.ofNat 128 (token - 1))).toInt
  if 0 ≤ delta ∧ delta < u64Bound then .ok delta.toNat
  else .error (invalid "metric timestamp delta overflow")

/-- The loop until the expected number of timestamps; the second number says how many of them belong
to the run that was read last. -/
def decodeDeltas : Nat → Nat → Nat → Nat → Reader TelemetryError (List Nat)
  | 0, _, _, _ => pure []
  | remaining + 1, covered + 1, previous, previousDelta => do
    let timestamp ← lift (timestampAfter previous previousDelta)
    let rest ← decodeDeltas remaining covered timestamp previousDelta
    return timestamp :: rest
  | remaining + 1, 0, previous, previousDelta => do
    let token ← readVarint128
    if token = 0 then
      let run ← readVarint
      require (run ≠ 0 && run ≤ remaining + 1) (invalid "invalid metric timestamp run length")
      let timestamp ← lift (timestampAfter previous previousDelta)
      let rest ← decodeDeltas remaining (run - 1) timestamp previousDelta
      return timestamp :: rest
    else
      let delta ← lift (deltaOfToken previousDelta token)
      let timestamp ← lift (timestampAfter previous delta)
      let rest ← decodeDeltas remaining 0 timestamp delta
      return timestamp :: rest

/-- The timestamps after the first. -/
def decodeTimestamps (first : Nat) : Nat → Reader TelemetryError (List Nat)
  | 0 => pure [first]
  | count + 1 => do
    let delta ← readVarint
    let second ← lift (timestampAfter first delta)
    let rest ← decodeDeltas count 0 second delta
    return first :: second :: rest

def decodeTimestampDeltaOfDelta (encoded : List UInt8) (count : Nat) :
    TelemetryResult (List Nat) := do
  ensure (count ≠ 0 && 8 ≤ encoded.length) (invalid "invalid metric timestamp lane")
  let (timestamps, rest) ← decodeTimestamps (ofLE (encoded.take 8)) (count - 1) (encoded.drop 8)
  ensure rest.isEmpty (invalid "trailing metric timestamp bytes")
  return timestamps

/-! ## Sidecars -/

/-- Up to sixteen values are searched in their list, more of them through a map. -/
structure MetricSidecarInterner (α : Type) where
  values : List α
  ids : Option (AList fun _ : α => UInt32)

section Interner

variable {α : Type} [DecidableEq α]

namespace MetricSidecarInterner

def new : MetricSidecarInterner α := ⟨[], none⟩

/-- `u32::try_from` of an index. -/
def idOf (index : Nat) : TelemetryResult UInt32 :=
  if index < 2 ^ 32 then .ok (UInt32.ofNat index) else .error .recordTooLarge

/-- The map from the values to their indices. -/
def promoted : Nat → List α → TelemetryResult (AList fun _ : α => UInt32)
  | _, [] => .ok ∅
  | index, value :: rest => do
    let id ← idOf index
    let ids ← promoted (index + 1) rest
    return ids.insert value id

/-- A value that is new gets the next index. -/
def push (interner : MetricSidecarInterner α) (value : α) :
    TelemetryResult (UInt32 × MetricSidecarInterner α) := do
  let id ← idOf interner.values.length
  return (id, ⟨interner.values ++ [value], interner.ids.map (·.insert value id)⟩)

def intern (interner : MetricSidecarInterner α) (value : α) :
    TelemetryResult (UInt32 × MetricSidecarInterner α) :=
  match interner.ids with
  | some ids =>
    match ids.lookup value with
    | some id => .ok (id, interner)
    | none => interner.push value
  | none =>
    match interner.values.idxOf? value with
    | some index => do
      let id ← idOf index
      return (id, interner)
    | none => do
      if interner.values.length = 16 then
        let ids ← promoted 0 interner.values
        push ⟨interner.values, some ids⟩ value
      else interner.push value

end MetricSidecarInterner

end Interner

/-- The texts for the lanes of sidecars. -/
inductive SidecarLane where
  | description
  | metadata
  | exemplars

def SidecarLane.error : SidecarLane → TelemetryError
  | .description => invalid "metric description sidecar ID is out of range"
  | .metadata => invalid "metric metadata sidecar ID is out of range"
  | .exemplars => invalid "metric exemplar sidecar ID is out of range"

def resolveMetricSidecar {α : Type} (values : List α) (id : UInt32) (lane : SidecarLane) :
    TelemetryResult α :=
  okOr lane.error values[id.toNat]?

section Chunk

variable {I A E : Type} [DecidableEq I] [DecidableEq A] [DecidableEq E]

/-- The interners of a chunk. -/
structure Interners (A E : Type) where
  descriptions : MetricSidecarInterner String
  metadataSets : MetricSidecarInterner A
  exemplarSets : MetricSidecarInterner E

/-- The loop over the points. -/
def packSidecars : Interners A E →
    List (DurableMetricPoint I A E) →
    TelemetryResult (Interners A E × List MetricPointSidecar)
  | interners, [] => .ok (interners, [])
  | interners, point :: rest => do
    let (descriptionId, descriptions) ← interners.descriptions.intern point.description
    let (metadataId, metadataSets) ← interners.metadataSets.intern point.metadata
    let (exemplarsId, exemplarSets) ← interners.exemplarSets.intern point.exemplars
    let (interners, packed) ← packSidecars ⟨descriptions, metadataSets, exemplarSets⟩ rest
    return (interners,
      ⟨descriptionId, metadataId, point.startTimeUnixNanos, point.flags, exemplarsId⟩ :: packed)

def encodeMetricSidecars (identity : I) (points : List (DurableMetricPoint I A E)) :
    TelemetryResult (MetricChunkSidecars I A E) := do
  let (interners, packed) ← packSidecars ⟨.new, .new, .new⟩ points
  return ⟨identity, interners.descriptions.values, interners.metadataSets.values,
    interners.exemplarSets.values, packed⟩

/-! ## Chunks -/

/-- `STMP` -/
def chunkMagic : List UInt8 := [0x53, 0x54, 0x4D, 0x50]
def chunkVersion : UInt8 := 1
def fixedHeader : Nat := 52
def sidecarLimit : Nat := 64 * 1024 * 1024

variable (backend : Backend I A E)

def encodeMetricChunk (points : List (DurableMetricPoint I A E)) : TelemetryResult (List UInt8) :=
  match points with
  | [] => .error (invalid "metric chunk must contain at least one point")
  | first :: _ => do
    ensure (points.all fun point =>
        point.recordRef.signal = .metrics && point.recordRef.topicId = first.recordRef.topicId &&
          point.recordRef.partitionId = first.recordRef.partitionId &&
          point.streamShardId = first.streamShardId && point.identity = first.identity)
      (invalid "metric chunk points do not share a series, partition, and owner")
    let sorted := backend.sortUnstable points
    let values ← encodeMetricValues backend (sorted.map (·.value))
    let sidecars ← encodeMetricSidecars ((sorted.head?.getD first).identity) sorted
    let sidecarBytes ← compressing (backend.sidecars.toVec sidecars)
    let compressedSidecars ← compressing (backend.zstd.compress sidecarBytes)
    let count ← lengthBytes sorted.length
    let offsets ← compressU64 backend.offsets (sorted.map (·.recordRef.offset))
    let timestamps ← encodeTimestampDeltaOfDelta (sorted.map (·.timestampUnixNanos.toNat))
    let offsets ← appendSection offsets
    let timestamps ← appendSection timestamps
    let values ← appendSection values
    let sidecars ← appendSection compressedSidecars
    let encoded := chunkMagic ++ chunkVersion :: [0, 0, 0] ++ toLE 4 first.streamShardId.toNat ++
      toLE 16 first.recordRef.topicId.toNat ++ toLE 4 first.recordRef.partitionId.toNat ++ count ++
      toLE 16 (backend.fingerprint first.identity).toNat ++ offsets ++ timestamps ++
        values ++ sidecars
    return encoded ++ backend.digest encoded

/-- The fields of the header after the magic, the version and the flags. -/
structure ChunkHeader where
  streamShardId : UInt32
  topicId : BitVec 128
  partitionId : UInt32
  count : Nat
  fingerprint : BitVec 128

/-- The header, whose length was checked before. -/
def readHeader : Reader TelemetryError ChunkHeader := do
  let _ ← take 8 (invalid "missing metric chunk header")
  let streamShardId ← uint 4 (invalid "missing metric chunk header")
  let topicId ← uint 16 (invalid "missing metric chunk header")
  let partitionId ← uint 4 (invalid "missing metric chunk header")
  let count ← uint 4 (invalid "missing metric chunk header")
  let fingerprint ← uint 16 (invalid "missing metric chunk header")
  return ⟨UInt32.ofNat streamShardId, BitVec.ofNat 128 topicId, UInt32.ofNat partitionId, count,
    BitVec.ofNat 128 fingerprint⟩

/-- What the sections before the sidecars hold. -/
structure ChunkLanes where
  offsets : List UInt64
  timestamps : List Nat
  values : List MetricValue
  compressedSidecars : List UInt8

def readLanes (count : Nat) : Reader TelemetryError ChunkLanes := do
  let offsets ← readSection
  let offsets ← lift (decompressU64 backend.offsets offsets count)
  let timestamps ← readSection
  let timestamps ← lift (decodeTimestampDeltaOfDelta timestamps count)
  let values ← readSection
  let values ← lift (decodeMetricValues backend values count)
  let compressedSidecars ← readSection
  return ⟨offsets, timestamps, values, compressedSidecars⟩

def readChunk : Reader TelemetryError (ChunkHeader × ChunkLanes) := do
  let header ← readHeader
  require (header.count ≠ 0) (invalid "metric chunk has no points")
  let lanes ← readLanes backend header.count
  return (header, lanes)

/-- One point from what the lanes have for it. -/
def decodePoint (header : ChunkHeader) (sidecars : MetricChunkSidecars I A E)
    (lanes : ((UInt64 × Nat) × MetricValue) × MetricPointSidecar) :
    TelemetryResult (DurableMetricPoint I A E) := do
  let (((offset, timestamp), value), sidecar) := lanes
  let description ← resolveMetricSidecar sidecars.descriptions sidecar.descriptionId .description
  let metadata ← resolveMetricSidecar sidecars.metadataSets sidecar.metadataId .metadata
  let exemplars ← resolveMetricSidecar sidecars.exemplarSets sidecar.exemplarsId .exemplars
  return ⟨header.streamShardId, ⟨.metrics, header.topicId, header.partitionId, offset⟩,
    sidecars.identity, description, metadata, sidecar.startTimeUnixNanos, UInt64.ofNat timestamp,
    sidecar.flags, value, exemplars⟩

def decodeMetricChunk (encoded : List UInt8) :
    TelemetryResult (List (DurableMetricPoint I A E)) := do
  ensure (fixedHeader + 32 ≤ encoded.length && encoded.take 4 = chunkMagic)
    (invalid "missing metric chunk header")
  ensure ((encoded.drop 4).take 4 = chunkVersion :: [0, 0, 0])
    (invalid "unsupported metric chunk version or flags")
  let payload := encoded.take (encoded.length - 32)
  ensure (backend.digest payload = encoded.drop (encoded.length - 32))
    (invalid "metric chunk checksum mismatch")
  let ((header, lanes), rest) ← readChunk backend payload
  ensure rest.isEmpty (invalid "trailing metric chunk sections")
  let sidecarBytes ← decoding (invalid "invalid metric sidecar compression")
    (backend.zstd.decompress lanes.compressedSidecars sidecarLimit)
  let sidecars ← okOr (invalid "invalid metric sidecars") (backend.sidecars.fromSlice sidecarBytes)
  ensure (sidecars.points.length = header.count &&
      backend.fingerprint sidecars.identity = header.fingerprint)
    (invalid "metric sidecar identity or count mismatch")
  (((lanes.offsets.zip lanes.timestamps).zip lanes.values).zip sidecars.points).mapM
    (decodePoint header sidecars)

end Chunk

end ShardTelemetry.Metric
