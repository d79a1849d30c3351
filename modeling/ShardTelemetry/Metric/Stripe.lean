import ShardTelemetry.Lib.Newest
import ShardTelemetry.Metric.Codec

/-!
# The metric stripe

A stripe has one head for each series, with the points that are still in memory as such, and the
chunks that were sealed.  A point that comes in is compared with those of its series and its time,
in the head and in the chunks; a head that is large or old enough is encoded as a chunk.

Maps are lists of pairs; the order of a hash map is left open (`Settings.order`).  The accumulators,
the chunks that wait to be published, and the caches of decoded chunks and fingerprints are left
out.
-/

namespace ShardTelemetry.Metric

/-- The partition of a point: its topic and its number. -/
abbrev PartitionRef := BitVec 128 × UInt32

def MetricRecordRef.topicPartition (ref : MetricRecordRef) : PartitionRef :=
  (ref.topicId, ref.partitionId)

section Stripe

variable {I A E : Type}

def DurableMetricPoint.timestamp (point : DurableMetricPoint I A E) : Nat :=
  point.timestampUnixNanos.toNat

def DurableMetricPoint.offset (point : DurableMetricPoint I A E) : Nat :=
  point.recordRef.offset.toNat

structure SeriesHead (I A E : Type) where
  topicPartition : PartitionRef
  identity : I
  /-- In the order of their times and offsets. -/
  points : List (DurableMetricPoint I A E)
  latestTimestamp : Nat
  bytes : Nat

structure SealedMetricChunk where
  minTimestampUnixNanos : Nat
  maxTimestampUnixNanos : Nat
  payload : List UInt8

structure MetricStripe (I A E : Type) where
  headBytes : Nat
  series : List (BitVec 128 × SeriesHead I A E)
  /-- The chunks of all series, in the order in which they were sealed. -/
  chunks : List (BitVec 128 × SealedMetricChunk)
  nameIndex : List (String × BitVec 128)
  labelIndex : List ((String × String) × BitVec 128)

/-- What a stripe is set up with, and what it uses of its points. -/
structure Settings (I A E : Type) where
  backend : Backend I A E
  headBudgetBytes : Nat
  outOfOrderNanos : Nat
  chunkBytes : Nat
  chunkPoints : Nat
  chunkNanos : Nat
  estimatedHeadBytes : DurableMetricPoint I A E → Nat
  tenant : I → String
  name : I → String
  /-- The attributes, with their values where they are strings. -/
  resourceAttributes : I → List (String × Option String)
  pointAttributes : I → List (String × Option String)
  /-- The order in which a hash map of heads is passed over. -/
  order : List (BitVec 128 × SeriesHead I A E) → List (BitVec 128 × SeriesHead I A E)
  order_perm : ∀ heads, (order heads).Perm heads

/-! ## Labels -/

/-- `BTreeMap::insert` -/
def insertLabel (labels : List (String × String)) (key value : String) : List (String × String) :=
  labels.filter (·.1 ≠ key) ++ [(key, value)]

/-- The labels of a series: attributes of points replace those of the resource. -/
def prometheusStringLabels (settings : Settings I A E) (identity : I) : List (String × String) :=
  (settings.resourceAttributes identity ++ settings.pointAttributes identity).foldl
      (fun labels entry =>
    match entry.2 with
    | some value => insertLabel labels entry.1 value
    | none => labels) []

/-! ## Maps -/

namespace MetricStripe

def new : MetricStripe I A E := ⟨0, [], [], [], []⟩

variable (stripe : MetricStripe I A E) (series : BitVec 128)

def head? : Option (SeriesHead I A E) :=
  (stripe.series.find? (·.1 = series)).map (·.2)

def setHead (head : SeriesHead I A E) : MetricStripe I A E :=
  { stripe with series := (series, head) :: stripe.series.filter (·.1 ≠ series) }

def chunksOf : List SealedMetricChunk :=
  (stripe.chunks.filter (·.1 = series)).map (·.2)

end MetricStripe

/-! ## Sealing -/

section Seal

variable [DecidableEq I] [DecidableEq A] [DecidableEq E] (settings : Settings I A E)

namespace MetricStripe

/-- The head is emptied before its points are encoded. -/
def sealSeries (stripe : MetricStripe I A E) (series : BitVec 128) :
    TelemetryResult Unit × MetricStripe I A E :=
  match stripe.head? series with
  | none => (.ok (), stripe)
  | some head =>
    if head.points.isEmpty then (.ok (), stripe)
    else
      let emptied := { stripe.setHead series { head with points := [], bytes := 0 } with
        headBytes := stripe.headBytes - head.bytes }
      match encodeMetricChunk settings.backend head.points with
      | .error error => (.error error, emptied)
      | .ok payload =>
        if head.points.length < 2 ^ 32 then
          (.ok (), { emptied with chunks := emptied.chunks ++ [(series,
            ⟨((head.points.map (·.timestamp)).min?).getD 0,
              ((head.points.map (·.timestamp)).max?).getD 0, payload⟩)] })
        else (.error .recordTooLarge, emptied)

/-- `max_by_key`: the last one of the largest. -/
def largestHead (heads : List (BitVec 128 × SeriesHead I A E)) : Option (BitVec 128) :=
  (heads.foldl (fun largest entry =>
    match largest with
    | none => some entry
    | some best => if best.2.bytes ≤ entry.2.bytes then some entry else some best) none).map (·.1)

def sealLargestHead (stripe : MetricStripe I A E) : TelemetryResult Unit × MetricStripe I A E :=
  match largestHead (settings.order stripe.series) with
  | none => (.ok (), stripe)
  | some series => stripe.sealSeries settings series

/-- The loop over the series of a partition. -/
def sealEach : List (BitVec 128) → MetricStripe I A E →
    TelemetryResult Unit × MetricStripe I A E
  | [], stripe => (.ok (), stripe)
  | series :: rest, stripe =>
    match stripe.sealSeries settings series with
    | (.error error, stripe) => (.error error, stripe)
    | (.ok (), stripe) => sealEach rest stripe

def sealPartition (stripe : MetricStripe I A E) (partition : PartitionRef) :
    TelemetryResult Unit × MetricStripe I A E :=
  sealEach settings
    (((settings.order stripe.series).filter (·.2.topicPartition = partition)).map (·.1)) stripe

/-! ## Applying a point -/

end MetricStripe

inductive MetricApplyOutcome where
  | inserted
  | duplicate
  | replaced
  | obsolete
  | outOfOrder
  deriving DecidableEq

def sameMetricSamplePayload (existing candidate : DurableMetricPoint I A E) : Bool :=
  existing.value = candidate.value && existing.flags = candidate.flags &&
    existing.exemplars = candidate.exemplars &&
    existing.startTimeUnixNanos = candidate.startTimeUnixNanos

/-- `BTreeMap::insert` by time and offset. -/
def insertPoint (points : List (DurableMetricPoint I A E)) (point : DurableMetricPoint I A E) :
    List (DurableMetricPoint I A E) :=
  points.takeWhile (·.sortKey < point.sortKey) ++ point ::
    (points.dropWhile (·.sortKey < point.sortKey)).dropWhile (·.sortKey = point.sortKey)

namespace SeriesHead

/-- The points of one time are taken out. -/
def without (head : SeriesHead I A E) (timestamp : Nat) : SeriesHead I A E :=
  { head with points := head.points.filter (·.timestamp ≠ timestamp) }

/-- Whether a head is sealed after a point was taken in. -/
def full (head : SeriesHead I A E) : Bool :=
  settings.chunkPoints ≤ head.points.length || settings.chunkBytes ≤ head.bytes ||
    match head.points.head? with
    | some first => settings.chunkNanos ≤ head.latestTimestamp - first.timestamp
    | none => false

end SeriesHead

namespace MetricStripe

variable (point : DurableMetricPoint I A E) (stripe : MetricStripe I A E) (series : BitVec 128)

/-- The series is entered in the indexes when its first point comes. -/
def indexed : MetricStripe I A E :=
  if (stripe.head? series).isSome then stripe
  else
    { stripe with
      nameIndex := stripe.nameIndex ++ [(settings.name point.identity, series)]
      labelIndex := stripe.labelIndex ++
        (prometheusStringLabels settings point.identity).map fun label => (label, series) }

/-- Make room for a point. -/
def reserve (stripe : MetricStripe I A E) (bytes : Nat) :
    TelemetryResult Unit × MetricStripe I A E :=
  if settings.headBudgetBytes < stripe.headBytes + bytes then stripe.sealLargestHead settings
  else (.ok (), stripe)

def decodeChunk (chunk : SealedMetricChunk) : TelemetryResult (List (DurableMetricPoint I A E)) :=
  decodeMetricChunk settings.backend chunk.payload

def sealedChunksAt (timestamp : Nat) : TelemetryResult (List (List (DurableMetricPoint I A E))) :=
  ((stripe.chunksOf series).filter fun chunk =>
    chunk.minTimestampUnixNanos ≤ timestamp && timestamp ≤ chunk.maxTimestampUnixNanos).mapM
      (decodeChunk settings)

/-- The head of a series, made if there is none. -/
def headFor : SeriesHead I A E :=
  (stripe.head? series).getD ⟨point.recordRef.topicPartition, point.identity, [],
    point.timestamp, 0⟩

/-- A point is taken into its head, and the head is sealed if it is full.  The points of its time
that are in the head make room for it. -/
def insertInto (head : SeriesHead I A E)
    (outcome : MetricApplyOutcome) : TelemetryResult MetricApplyOutcome × MetricStripe I A E :=
  let removed :=
    ((head.points.filter (·.timestamp = point.timestamp)).map settings.estimatedHeadBytes).sum
  let kept := head.without point.timestamp
  let head := { kept with
    points := insertPoint kept.points point
    latestTimestamp := max head.latestTimestamp point.timestamp
    bytes := head.bytes - removed + settings.estimatedHeadBytes point }
  let stripe := { stripe.setHead series head with
    headBytes := stripe.headBytes - removed + settings.estimatedHeadBytes point }
  if head.full settings then
    match stripe.sealSeries settings series with
    | (.error error, stripe) => (.error error, stripe)
    | (.ok (), stripe) => (.ok outcome, stripe)
  else (.ok outcome, stripe)

/-- A point meets the other points of its time. -/
def applyToHead (sealedPoints : List (DurableMetricPoint I A E)) (protocol : MetricIngestProtocol) :
    TelemetryResult MetricApplyOutcome × MetricStripe I A E :=
  let head := stripe.headFor point series
  let stripe := stripe.setHead series head
  if point.timestamp + settings.outOfOrderNanos < head.latestTimestamp then
    (.error (.invalidMetricSample "metric point exceeds the 10 minute out-of-order window"), stripe)
  else
    let existing := (head.points ++ sealedPoints).filter (·.timestamp = point.timestamp)
    if existing.any (sameMetricSamplePayload · point) then (.ok .duplicate, stripe)
    else
      match (existing.map (·.offset)).max? with
      | some winner =>
        if protocol = .remoteWrite then
          (.error (.metricSampleConflict series.toNat point.timestamp), stripe)
        else if point.offset ≤ winner then (.ok .obsolete, stripe)
        else stripe.insertInto settings point series head .replaced
      | none =>
        stripe.insertInto settings point series head
          (if point.timestamp < head.latestTimestamp then .outOfOrder else .inserted)

/-- Another series has the fingerprint. -/
def collides : Bool :=
  match stripe.head? series with
  | some head =>
    head.identity ≠ point.identity || head.topicPartition ≠ point.recordRef.topicPartition
  | none => false

def applyRef (stripe : MetricStripe I A E) (protocol : MetricIngestProtocol) :
    TelemetryResult MetricApplyOutcome × MetricStripe I A E :=
  if point.recordRef.signal ≠ .metrics then
    (.error (.invalidBlockEncoding "non-metric record applied to metric stripe"), stripe)
  else
    let series := settings.backend.fingerprint point.identity
    if stripe.collides point series
      then (.error (.invalidBlockEncoding "series fingerprint collision"), stripe)
    else
      let stripe := stripe.indexed settings point series
      let bytes := settings.estimatedHeadBytes point
      if settings.headBudgetBytes < bytes then (.error .recordTooLarge, stripe)
      else
        match stripe.reserve settings bytes with
        | (.error error, stripe) => (.error error, stripe)
        | (.ok (), stripe) =>
          if settings.headBudgetBytes < stripe.headBytes + bytes then
            (.error (.invalidConfig "metric head memory budget exhausted"), stripe)
          else
            match stripe.sealedChunksAt settings series point.timestamp with
            | .error error => (.error error, stripe)
            | .ok decoded => stripe.applyToHead settings point series decoded.flatten protocol

end MetricStripe

/-! ## Histories -/

/-- What is done to a stripe. -/
inductive MetricOp (I A E : Type) where
  | apply (point : DurableMetricPoint I A E) (protocol : MetricIngestProtocol)
  | sealPartition (partition : PartitionRef)

/-- A point is accepted unless it is ignored or rejected. -/
def accepts : TelemetryResult MetricApplyOutcome → Bool
  | .ok .inserted => true
  | .ok .replaced => true
  | .ok .outOfOrder => true
  | _ => false

/-- A stripe with the points it has accepted. -/
abbrev MetricHistory (I A E : Type) :=
  MetricStripe I A E × List (DurableMetricPoint I A E)

def MetricStripe.step (history : MetricHistory I A E) :
    MetricOp I A E → MetricHistory I A E
  | .apply point protocol =>
    let applied := history.1.applyRef settings point protocol
    (applied.2, if accepts applied.1 then history.2 ++ [point] else history.2)
  | .sealPartition partition => ((history.1.sealPartition settings partition).2, history.2)

def MetricStripe.run (ops : List (MetricOp I A E)) : MetricHistory I A E :=
  ops.foldl (MetricStripe.step settings) (.new, [])

end Seal

end Stripe

end ShardTelemetry.Metric
