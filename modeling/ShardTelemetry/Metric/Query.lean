import Mathlib.Data.List.Dedup
import ShardTelemetry.Metric.Stripe

/-!
# Metric queries

A query without a series goes over the series that the indexes propose, and keeps the newest point
of each series and time.  A query for one series has three more ways: by offset if it names a
partition or an offset to start from, chunk after chunk if these and the head follow each other in
time, and otherwise by the least time of the chunks, which lets it stop early.
-/

namespace ShardTelemetry.Metric

section Query

variable {I A E : Type}

structure MetricQuery where
  tenant : String
  partition : Option PartitionRef
  startOffset : Option Nat
  series : Option (BitVec 128)
  name : Option String
  exactLabels : List (String × String)
  startTimeUnixNanos : Option Nat
  endTimeUnixNanos : Option Nat
  limit : Nat

inductive ExactMetricSource (I A E : Type) where
  | head (head : SeriesHead I A E)
  | chunk (chunk : SealedMetricChunk)

namespace ExactMetricSource

def minTimestampUnixNanos : ExactMetricSource I A E → Nat
  | .head live => (live.points.head?.map (·.timestamp)).getD (2 ^ 64 - 1)
  | .chunk stored => stored.minTimestampUnixNanos

def maxTimestampUnixNanos : ExactMetricSource I A E → Nat
  | .head live => (live.points.getLast?.map (·.timestamp)).getD 0
  | .chunk stored => stored.maxTimestampUnixNanos

end ExactMetricSource

/-- The unstable sorts, and the order in which a hash set of series is passed over. -/
structure Orders (I A E : Type) where
  byOffset : SortBy fun point : DurableMetricPoint I A E => point.offset
  byTime : SortBy fun point : DurableMetricPoint I A E =>
    toLex (point.timestamp, point.offset)
  bySource : SortBy fun source : ExactMetricSource I A E => source.minTimestampUnixNanos
  candidates : List (BitVec 128) → List (BitVec 128)
  candidates_perm : ∀ series, (candidates series).Perm series

def Orders.insertion : Orders I A E :=
  ⟨.insertion _, .insertion _, .insertion _, id, fun _ => .refl _⟩

/-! ## What a query asks for -/

section Match

variable (settings : Settings I A E) (query : MetricQuery)

/-- The tenant and the name are checked on the head of a series. -/
def metricHeadMatches (identity : I) : Bool :=
  settings.tenant identity = query.tenant && query.name.all (· = settings.name identity)

def metricIdentityMatches (identity : I) : Bool :=
  metricHeadMatches settings query identity &&
    query.exactLabels.all (· ∈ prometheusStringLabels settings identity)

def metricPointTimeMatches (point : DurableMetricPoint I A E) : Bool :=
  query.startTimeUnixNanos.all (· ≤ point.timestamp) &&
    query.endTimeUnixNanos.all (point.timestamp ≤ ·)

def metricExactSeriesPointMatches (point : DurableMetricPoint I A E) : Bool :=
  query.partition.all (· = point.recordRef.topicPartition) && metricPointTimeMatches query point

def metricQueryCursorMatches (point : DurableMetricPoint I A E) : Bool :=
  query.startOffset.all (· ≤ point.offset)

/-- Points with times between `low` and `high` are not asked for. -/
def MetricQuery.outside (low high : Nat) : Bool :=
  query.startTimeUnixNanos.any (high < ·) || query.endTimeUnixNanos.any (· < low)

def MetricQuery.unbounded : Bool :=
  query.partition.isNone && query.startOffset.isNone && query.startTimeUnixNanos.isNone &&
    query.endTimeUnixNanos.isNone

end Match

/-! ## Winners -/

def retainMetricWinner (winners : List (BitVec 128 × DurableMetricPoint I A E))
    (entry : BitVec 128 × DurableMetricPoint I A E) :
    List (BitVec 128 × DurableMetricPoint I A E) :=
  Newest.retain (fun entry => toLex (entry.1.toNat, entry.2.timestamp)) (·.2.offset) winners entry

def retainExactMetricWinner (winners : List (DurableMetricPoint I A E))
    (point : DurableMetricPoint I A E) : List (DurableMetricPoint I A E) :=
  Newest.retain (·.timestamp) (·.offset) winners point

namespace MetricStripe

variable (settings : Settings I A E) (orders : Orders I A E)
  (query : MetricQuery) (stripe : MetricStripe I A E)

/-! ## All series -/

def posting {κ : Type} [DecidableEq κ] (index : List (κ × BitVec 128)) (key : κ) :
    List (BitVec 128) :=
  ((index.filter (·.1 = key)).map (·.2)).dedup

def queryCandidates : Option (List (BitVec 128)) :=
  query.exactLabels.foldl (fun candidate label =>
    let found := posting stripe.labelIndex label
    some (match candidate with
      | some existing => existing.filter (· ∈ found)
      | none => found)) (query.name.map (posting stripe.nameIndex))

def collectChunk (series : BitVec 128) (winners : List (BitVec 128 × DurableMetricPoint I A E))
    (chunk : SealedMetricChunk) : TelemetryResult (List (BitVec 128 × DurableMetricPoint I A E)) :=
  if query.outside chunk.minTimestampUnixNanos chunk.maxTimestampUnixNanos then .ok winners
  else do
    let decoded ← decodeChunk settings chunk
    pure (((decoded.filter (metricExactSeriesPointMatches query)).map (series, ·)).foldl
      retainMetricWinner winners)

def collectMetricSeriesMatches (winners : List (BitVec 128 × DurableMetricPoint I A E))
    (entry : BitVec 128 × SeriesHead I A E) :
    TelemetryResult (List (BitVec 128 × DurableMetricPoint I A E)) :=
  (stripe.chunksOf entry.1).foldlM (collectChunk settings query entry.1)
    (((entry.2.points.filter (metricExactSeriesPointMatches query)).map (entry.1, ·)).foldl
      retainMetricWinner winners)

/-- The series that the indexes propose. -/
def proposedHeads : List (BitVec 128 × SeriesHead I A E) :=
  match stripe.queryCandidates query with
  | some candidates =>
    (orders.candidates candidates).filterMap fun series => (stripe.head? series).map fun head =>
      (series, head)
  | none => settings.order stripe.series

/-- The series that a query without a series goes over. -/
def queriedHeads : List (BitVec 128 × SeriesHead I A E) :=
  (stripe.proposedHeads settings orders query).filter fun entry =>
    metricHeadMatches settings query entry.2.identity

def querySeries (limit : Nat) : TelemetryResult (List (DurableMetricPoint I A E)) := do
  let winners ← (stripe.queriedHeads settings orders query).foldlM
    (stripe.collectMetricSeriesMatches settings query) []
  let points := (winners.map (·.2)).filter (metricQueryCursorMatches query)
  let sorted := if query.partition.isSome then orders.byOffset.sort points
    else orders.byTime.sort points
  pure (sorted.take limit)

/-! ## One series -/

variable (head : SeriesHead I A E) (limit : Nat)

def queryExactSeriesByOffset (series : BitVec 128) :
    TelemetryResult (List (DurableMetricPoint I A E)) := do
  let winners ← (stripe.chunksOf series).foldlM (fun winners chunk => do
    let decoded ← decodeChunk settings chunk
    pure ((decoded.filter (metricExactSeriesPointMatches query)).foldl
      retainExactMetricWinner winners)) []
  let winners :=
    (head.points.filter (metricExactSeriesPointMatches query)).foldl retainExactMetricWinner winners
  pure ((orders.byOffset.sort (winners.filter (metricQueryCursorMatches query))).take limit)

/-- Each chunk ends before the next one begins. -/
def chunksAreDisjoint : List SealedMetricChunk → Bool
  | first :: second :: rest =>
    first.maxTimestampUnixNanos < second.minTimestampUnixNanos && chunksAreDisjoint (second :: rest)
  | _ => true

def exactSeriesSourcesAreDisjoint (series : BitVec 128) : Bool :=
  chunksAreDisjoint (stripe.chunksOf series) &&
    match head.points.head? with
    | none => true
    | some first =>
      (stripe.chunksOf series).getLast?.all (·.maxTimestampUnixNanos < first.timestamp)

/-- The loop of the query without bounds. -/
def takeChunks : List SealedMetricChunk → List (DurableMetricPoint I A E) →
    TelemetryResult (List (DurableMetricPoint I A E))
  | [], selected => .ok (selected ++ head.points.take (limit - selected.length))
  | chunk :: rest, selected => do
    let decoded ← decodeChunk settings chunk
    let selected := selected ++ decoded.take (limit - selected.length)
    if selected.length = limit then pure selected else takeChunks rest selected

/-- Push points until there are enough, and say whether there are. -/
def pushUntil : List (DurableMetricPoint I A E) →
    List (DurableMetricPoint I A E) →
    List (DurableMetricPoint I A E) × Bool
  | selected, [] => (selected, false)
  | selected, point :: rest =>
    if (selected ++ [point]).length = limit then (selected ++ [point], true)
    else pushUntil (selected ++ [point]) rest

/-- The loop of the query with bounds. -/
def pushChunks : List SealedMetricChunk → List (DurableMetricPoint I A E) →
    TelemetryResult (List (DurableMetricPoint I A E))
  | [], selected =>
    .ok (pushUntil limit selected (head.points.filter (metricExactSeriesPointMatches query))).1
  | chunk :: rest, selected =>
    if query.outside chunk.minTimestampUnixNanos chunk.maxTimestampUnixNanos
      then pushChunks rest selected
    else do
      let decoded ← decodeChunk settings chunk
      let pushed := pushUntil limit selected (decoded.filter (metricExactSeriesPointMatches query))
      if pushed.2 then pure pushed.1 else pushChunks rest pushed.1

def queryDisjointExactSeries (series : BitVec 128) :
    TelemetryResult (List (DurableMetricPoint I A E)) :=
  if query.unbounded then takeChunks settings head limit (stripe.chunksOf series) []
  else pushChunks settings query head limit (stripe.chunksOf series) []

def sourcePoints : ExactMetricSource I A E →
    TelemetryResult (List (DurableMetricPoint I A E))
  | .head head => .ok head.points
  | .chunk chunk => decodeChunk settings chunk

/-- The loop over the sources in the order of their least times. -/
def overlapping : List (ExactMetricSource I A E) →
    List (DurableMetricPoint I A E) →
    TelemetryResult (List (DurableMetricPoint I A E))
  | [], winners => .ok winners
  | source :: rest, winners =>
    if query.outside source.minTimestampUnixNanos source.maxTimestampUnixNanos
      then overlapping rest winners
    else if limit ≤ winners.length && (winners[limit - 1]?).any
      (·.timestamp < source.minTimestampUnixNanos) then
      .ok winners
    else do
      let points ← sourcePoints settings source
      overlapping rest
        ((points.filter (metricExactSeriesPointMatches query)).foldl
        retainExactMetricWinner winners)

def exactSources (series : BitVec 128) : List (ExactMetricSource I A E) :=
  (if head.points.isEmpty then [] else [.head head]) ++ (stripe.chunksOf series).map .chunk

def queryOverlappingExactSeries (series : BitVec 128) :
    TelemetryResult (List (DurableMetricPoint I A E)) := do
  let winners ← overlapping settings query limit
    (orders.bySource.sort (stripe.exactSources head series)) []
  let points := winners.filter (metricQueryCursorMatches query)
  let sorted := if query.partition.isSome then orders.byOffset.sort points else points
  pure (sorted.take limit)

def queryExactSeries (series : BitVec 128) : TelemetryResult (List (DurableMetricPoint I A E)) :=
  match stripe.head? series with
  | none => .ok []
  | some head =>
    if !metricIdentityMatches settings query head.identity then .ok []
    else if query.partition.isSome || query.startOffset.isSome then
      stripe.queryExactSeriesByOffset settings orders query head limit series
    else if stripe.exactSeriesSourcesAreDisjoint head series then
      stripe.queryDisjointExactSeries settings query head limit series
    else stripe.queryOverlappingExactSeries settings orders query head limit series

end MetricStripe

def MetricStripe.query (settings : Settings I A E) (orders : Orders I A E)
    (stripe : MetricStripe I A E)
    (query : MetricQuery) : TelemetryResult (List (DurableMetricPoint I A E)) :=
  match query.series with
  | some series => stripe.queryExactSeries settings orders query (max query.limit 1) series
  | none => stripe.querySeries settings orders query (max query.limit 1)

end Query

end ShardTelemetry.Metric
