import ShardTelemetry.Correlation.Index
import ShardTelemetry.Lib.Fold
import ShardTelemetry.Lib.Settle
import ShardTelemetry.Query.LogQuery

/-!
# Correlation queries

A stripe answers a correlation query from three sources: the postings of its spans and metric
points, its logs, and the published blocks of spans and metric points.  Logs are asked by a log
query, and what a log query finds in a partition is what `LogQuery.select` selects there; which
index narrows it down is not modelled here.  Published blocks are skipped by their time range and by
a filter over their keys, and so are the groups and the catalog pages that they are published in.

The service asks every stripe and settles the answers; the store limits the time range to what it
retains.
-/

namespace ShardTelemetry.Correlation

open Query List
open Settle (settle)

/-! ## Block filters -/

/-- 16 words of 64 bits. -/
abbrev CorrelationBlockFilter := BitVec 1024

def mixFilterHash (value : UInt64) : UInt64 :=
  let value := value ^^^ (value >>> 30)
  let value := value * 0xbf58476d1ce4e5b9
  let value := value ^^^ (value >>> 27)
  let value := value * 0x94d049bb133111eb
  value ^^^ (value >>> 31)

/-- The tag and the identity of a key. -/
def CorrelationKey.parts : CorrelationKey → UInt64 × Nat
  | .trace id => (0, id)
  | .resource id => (1, id)
  | .scope id => (2, id)
  | .attribute id => (3, id)

def correlationFilterBits (tenant : Text) (key : CorrelationKey) : List Nat :=
  let (tag, value) := key.parts
  let tenantHash := (utf8 tenant).foldl
    (fun hash byte => (hash ^^^ byte.toUInt64) * 0x100000001b3) (0xcbf29ce484222325 : UInt64)
  let low := UInt64.ofNat value
  let high := UInt64.ofNat (value / 2 ^ 64)
  let first := mixFilterHash (low ^^^ tenantHash ^^^ (tag * 0x9e3779b97f4a7c15))
  let rotated := (tenantHash <<< 29) ||| (tenantHash >>> 35)
  let stride := mixFilterHash (high ^^^ rotated ^^^ (tag * 0xd6e8feb86659fd93)) ||| 1
  (range 4).map fun index => (first + UInt64.ofNat index * stride).toNat % 1024

namespace CorrelationBlockFilter

def insert (filter : CorrelationBlockFilter) (tenant : Text) (key : CorrelationKey) :
    CorrelationBlockFilter :=
  (correlationFilterBits tenant key).foldl (fun filter bit => filter ||| (1#1024 <<< bit)) filter

def contains (filter : CorrelationBlockFilter) (tenant : Text) (key : CorrelationKey) : Bool :=
  (correlationFilterBits tenant key).all fun bit => filter.getLsbD bit

/-- The filter of a block with these keys. -/
def ofKeys (keys : List (Text × CorrelationKey)) : CorrelationBlockFilter :=
  keys.foldl (fun filter key => insert filter key.1 key.2) 0#1024

def mayMatch (filter : CorrelationBlockFilter) (query : CorrelationQuery) : Bool :=
  (queryKeys query).all fun key => contains filter query.tenant key

/-- The traces of the spans are in a range; the filter has only the traces of their links. -/
def mayMatchTraceBlock (filter : CorrelationBlockFilter) (query : CorrelationQuery)
    (minTraceId maxTraceId : Nat) : Bool :=
  (queryKeys query).all fun key =>
    match key with
    | .trace id => (minTraceId ≤ id && id ≤ maxTraceId) || contains filter query.tenant key
    | _ => contains filter query.tenant key

theorem getLsbD_foldl (bits : List Nat) (filter : CorrelationBlockFilter) (inside : i < 1024) :
    (bits.foldl (fun filter bit => filter ||| (1#1024 <<< bit)) filter).getLsbD i =
      (filter.getLsbD i || bits.any (· = i)) := by
  induction bits generalizing filter with
  | nil => simp
  | cons bit bits ih =>
    rw [foldl_cons, ih, BitVec.getLsbD_or, any_cons, Bool.or_assoc]
    by_cases eq : bit = i
    · subst eq
      simp [inside]
    · by_cases lt : i < bit
      · simp [lt, eq]
      · have ne : i - bit ≠ 0 := by omega
        simp [eq, ne]

theorem lt_of_mem_bits (h : bit ∈ correlationFilterBits tenant key) : bit < 1024 := by
  obtain ⟨ix, -, rfl⟩ := mem_map.mp h
  exact Nat.mod_lt _ (by decide)

theorem contains_insert_self (filter : CorrelationBlockFilter) (tenant : Text)
    (key : CorrelationKey) : contains (insert filter tenant key) tenant key = true := by
  apply all_eq_true.mpr
  intro bit mem
  unfold insert
  rw [getLsbD_foldl _ _ (lt_of_mem_bits mem), Bool.or_eq_true, any_eq_true]
  exact Or.inr ⟨bit, mem, decide_eq_true rfl⟩

theorem contains_insert {filter : CorrelationBlockFilter} (h : contains filter tenant key = true) :
    contains (insert filter tenant' key') tenant key = true := by
  apply all_eq_true.mpr
  intro bit mem
  unfold insert
  rw [getLsbD_foldl _ _ (lt_of_mem_bits mem), Bool.or_eq_true]
  exact Or.inl (all_eq_true.mp h bit mem)

/-- A filter has no false negatives. -/
theorem contains_ofKeys {keys : List (Text × CorrelationKey)} (h : (tenant, key) ∈ keys) :
    contains (ofKeys keys) tenant key = true := by
  suffices all : ∀ filter, contains filter tenant key = true ∨ (tenant, key) ∈ keys →
      contains (keys.foldl (fun filter key => insert filter key.1 key.2) filter) tenant
        key = true from
    all _ (.inr h)
  clear h
  induction keys with
  | nil => simp
  | cons first rest ih =>
    rintro filter (held | mem)
    · exact ih _ (.inl (contains_insert held))
    · obtain rfl | later := mem_cons.mp mem
      · exact ih _ (.inl (contains_insert_self filter tenant key))
      · exact ih _ (.inr later)

end CorrelationBlockFilter

/-! ## Published blocks -/

/-- What is known of a block, a group or a page before it is read. -/
structure BlockSummary where
  minTimestampUnixNanos : Nat
  maxTimestampUnixNanos : Nat
  minSignalIdentity : Nat
  maxSignalIdentity : Nat
  correlationFilter : CorrelationBlockFilter

/-- The conditions under which something with this summary is read. -/
def BlockSummary.mayMatch (summary : BlockSummary) (signal : TelemetrySignal)
    (query : CorrelationQuery) : Bool :=
  query.startTimeUnixNanos.all (· ≤ summary.maxTimestampUnixNanos) &&
    query.endTimeUnixNanos.all (summary.minTimestampUnixNanos ≤ ·) &&
    match signal with
    | .traces => summary.correlationFilter.mayMatchTraceBlock query summary.minSignalIdentity
        summary.maxSignalIdentity
    | _ => summary.correlationFilter.mayMatch query

/-- A published block: its records, which are of one signal, and the summary that sealing it left.
The summary misses none of the records. -/
structure TierBlock extends BlockSummary where
  signal : TelemetrySignal
  records : List SignalRecord
  signals : ∀ record ∈ records, record.recordRef.signal = signal
  within : ∀ record ∈ records, minTimestampUnixNanos ≤ record.timestampUnixNanos ∧
    record.timestampUnixNanos ≤ maxTimestampUnixNanos
  covers : ∀ record ∈ records, ∀ key ∈ record.visitedKeys,
    correlationFilter.contains record.tenant key = true ∨
      signal = .traces ∧ ∃ id, key = .trace id ∧ minSignalIdentity ≤ id ∧ id ≤ maxSignalIdentity

/-- The conditions under which a block is read. -/
def TierBlock.mayMatch (block : TierBlock) (query : CorrelationQuery) : Bool :=
  block.toBlockSummary.mayMatch block.signal query

/-- The keys that a span adds to the filter of its block: all but its own trace. -/
def DurableSpan.filterKeys (span : DurableSpan) : List CorrelationKey :=
  contextKeys span.resource span.scope ++ attributeKeys span.attributes ++
    span.events.flatMap attributeKeys ++
    span.links.flatMap fun link => .trace link.1 :: attributeKeys link.2

/-- The least number of a list that is not empty. -/
def least (values : List Nat) : Nat := values.tail.foldl min (values.headD 0)

/-- The greatest number of a list that is not empty. -/
def greatest (values : List Nat) : Nat := values.foldl max 0

theorem least_le (h : value ∈ values) : least values ≤ value := by
  cases values with
  | nil => cases h
  | cons first rest =>
    obtain ⟨atFirst, atRest⟩ := le_foldl_min_iff.mp (le_refl (rest.foldl min first))
    exact forall_mem_cons.mpr ⟨atFirst, atRest⟩ value h

theorem le_greatest (h : value ∈ values) : value ≤ greatest values :=
  (foldl_max_le_iff.mp le_rfl).2 value h

/-- Sealing spans; the duration of each span is given beside it. -/
def TierBlock.ofSpans (spans : List (DurableSpan × Nat)) : TierBlock where
  signal := .traces
  records := spans.map (·.1.record)
  minTimestampUnixNanos := least (spans.map (·.1.startTimeUnixNanos.toNat))
  maxTimestampUnixNanos := greatest (spans.map fun span =>
    (checkedAdd span.1.startTimeUnixNanos.toNat span.2).getD (u64Bound - 1))
  minSignalIdentity := least (spans.map (·.1.traceId))
  maxSignalIdentity := greatest (spans.map (·.1.traceId))
  correlationFilter := CorrelationBlockFilter.ofKeys
    (spans.flatMap fun span => span.1.filterKeys.map (span.1.tenant, ·))
  signals := by
    intro record mem
    obtain ⟨span, -, rfl⟩ := mem_map.mp mem
    rfl
  within := by
    intro record mem
    obtain ⟨span, held, rfl⟩ := mem_map.mp mem
    refine ⟨least_le (mem_map_of_mem held), le_trans ?_ (le_greatest (mem_map_of_mem held))⟩
    show span.1.startTimeUnixNanos.toNat ≤ _
    have bound : span.1.startTimeUnixNanos.toNat < u64Bound := span.1.startTimeUnixNanos.toNat_lt
    unfold checkedAdd
    split
    · exact Nat.le_add_right _ _
    · exact Nat.le_sub_one_of_lt bound
  covers := by
    intro record mem key visited
    obtain ⟨span, held, rfl⟩ := mem_map.mp mem
    obtain rfl | visited := mem_cons.mp visited
    · exact Or.inr ⟨rfl, span.1.traceId, rfl, least_le (mem_map_of_mem held),
        le_greatest (mem_map_of_mem held)⟩
    · refine Or.inl (CorrelationBlockFilter.contains_ofKeys (mem_flatMap.mpr ⟨span, held, ?_⟩))
      exact mem_map_of_mem visited

/-- The keys of the series of a metric point. -/
def DurableMetricPoint.identityKeys (point : DurableMetricPoint) : List CorrelationKey :=
  contextKeys point.resource point.scope ++ attributeKeys point.pointAttributes

/-- Sealing the points of a series: the keys of the series are taken from the first point. -/
def TierBlock.ofMetrics (series : Nat) (first : DurableMetricPoint)
    (points : List DurableMetricPoint)
    (same : ∀ point ∈ points, point.tenant = first.tenant ∧
      point.identityKeys = first.identityKeys) :
    TierBlock where
  signal := .metrics
  records := points.map (·.record)
  minTimestampUnixNanos := least (points.map (·.timestampUnixNanos))
  maxTimestampUnixNanos := greatest (points.map (·.timestampUnixNanos))
  minSignalIdentity := series
  maxSignalIdentity := series
  correlationFilter := CorrelationBlockFilter.ofKeys
    (first.identityKeys.map (first.tenant, ·) ++ points.flatMap fun point =>
        (attributeKeys point.metadata ++ point.exemplarKeys).map (point.tenant, ·))
  signals := by
    intro record mem
    obtain ⟨point, -, rfl⟩ := mem_map.mp mem
    rfl
  within := by
    intro record mem
    obtain ⟨point, held, rfl⟩ := mem_map.mp mem
    exact ⟨least_le (mem_map_of_mem held), le_greatest (mem_map_of_mem held)⟩
  covers := by
    intro record mem key visited
    obtain ⟨point, held, rfl⟩ := mem_map.mp mem
    obtain ⟨tenant, identity⟩ := same point held
    refine Or.inl (CorrelationBlockFilter.contains_ofKeys ?_)
    have visited :
        key ∈ point.identityKeys ++ (attributeKeys point.metadata ++ point.exemplarKeys) := by
      rw [← append_assoc]
      exact visited
    obtain ofSeries | own := mem_append.mp visited
    · refine mem_append_left _ ?_
      rw [identity] at ofSeries
      show (point.tenant, key) ∈ _
      rw [tenant]
      exact mem_map_of_mem ofSeries
    · exact mem_append_right _ (mem_flatMap.mpr ⟨point, held, mem_map_of_mem own⟩)

/-! ## Groups and pages -/

namespace BlockSummary

/-- The summary of a group of blocks, or of a page of groups. -/
def join (summaries : List BlockSummary) : BlockSummary where
  minTimestampUnixNanos := least (summaries.map (·.minTimestampUnixNanos))
  maxTimestampUnixNanos := greatest (summaries.map (·.maxTimestampUnixNanos))
  minSignalIdentity := least (summaries.map (·.minSignalIdentity))
  maxSignalIdentity := greatest (summaries.map (·.maxSignalIdentity))
  correlationFilter :=
    summaries.foldl (fun filter summary => filter ||| summary.correlationFilter) 0#1024

variable {summary : BlockSummary} {summaries : List BlockSummary} (mem : summary ∈ summaries)
include mem

theorem contains_join (h : summary.correlationFilter.contains tenant key = true) :
    (join summaries).correlationFilter.contains tenant key = true := by
  have held : ∀ (summaries : List BlockSummary) (filter : CorrelationBlockFilter) (bit : Nat),
      (filter.getLsbD bit = true ∨
        ∃ summary ∈ summaries, summary.correlationFilter.getLsbD bit = true) →
      (summaries.foldl (fun filter summary => filter ||| summary.correlationFilter) filter).getLsbD
        bit = true := by
    intro summaries
    induction summaries with
    | nil => simp
    | cons first rest ih =>
      intro filter bit some
      refine ih _ bit ?_
      rw [BitVec.getLsbD_or, Bool.or_eq_true, or_assoc]
      simpa using some
  exact all_eq_true.mpr fun bit asked => held summaries _ bit
    (.inr ⟨summary, mem, all_eq_true.mp h bit asked⟩)

/-- What has a part that is read is read. -/
theorem mayMatch_join (h : summary.mayMatch signal q = true) :
    (join summaries).mayMatch signal q = true := by
  have lower : (join summaries).minTimestampUnixNanos ≤ summary.minTimestampUnixNanos :=
    least_le (mem_map_of_mem mem)
  have upper : summary.maxTimestampUnixNanos ≤ (join summaries).maxTimestampUnixNanos :=
    le_greatest (mem_map_of_mem mem)
  have least : (join summaries).minSignalIdentity ≤ summary.minSignalIdentity :=
    least_le (mem_map_of_mem mem)
  have greatest : summary.maxSignalIdentity ≤ (join summaries).maxSignalIdentity :=
    le_greatest (mem_map_of_mem mem)
  have filtered (h : summary.correlationFilter.mayMatch q = true) :
      (join summaries).correlationFilter.mayMatch q = true :=
    all_eq_true.mpr fun key asked => contains_join mem (all_eq_true.mp h key asked)
  unfold mayMatch at h ⊢
  simp only [Bool.and_eq_true, Option.all_eq_true, decide_eq_true_eq] at h ⊢
  refine ⟨⟨fun start eq => (h.1.1 start eq).trans upper, fun finish eq =>
    lower.trans (h.1.2 finish eq)⟩, ?_⟩
  cases signal with
  | logs => exact filtered h.2
  | metrics => exact filtered h.2
  | traces =>
    refine all_eq_true.mpr fun key asked => ?_
    have met := all_eq_true.mp h.2 key asked
    cases key with
    | trace id =>
      simp only [Bool.or_eq_true, Bool.and_eq_true, decide_eq_true_eq] at met ⊢
      exact met.imp (fun met => ⟨least.trans met.1, met.2.trans greatest⟩) (contains_join mem)
    | _ => exact contains_join mem met

end BlockSummary

/-- The groups that are left when pages and groups are skipped by their summaries. -/
def candidateGroups (pages : List (List (List TierBlock))) (signal : TelemetrySignal)
    (query : CorrelationQuery) : List (List TierBlock) :=
  let ofGroup (group : List TierBlock) := BlockSummary.join (group.map (·.toBlockSummary))
  (pages.filter fun page => (BlockSummary.join (page.map ofGroup)).mayMatch signal query).flatMap
    fun page => page.filter fun group => (ofGroup group).mayMatch signal query

/-- Elements that contribute nothing may be left out. -/
theorem flatMap_filter_of_nil {α β : Type} {l : List α} {p : α → Bool} {f : α → List β}
    (h : ∀ a ∈ l, p a = false → f a = []) : (l.filter p).flatMap f = l.flatMap f := by
  induction l with
  | nil => rfl
  | cons a l ih =>
    obtain ⟨first, rest⟩ := forall_mem_cons.mp h
    rw [filter_cons, flatMap_cons, ← ih rest]
    cases met : p a with
    | true => rfl
    | false =>
      rw [first met]
      rfl

/-- Nothing that is read is in a page or a group that is skipped. -/
theorem flatMap_candidateGroups {pages : List (List (List TierBlock))}
    (same : ∀ block ∈ pages.flatten.flatten, block.signal = signal) (q : CorrelationQuery) :
    (candidateGroups pages signal q).flatMap (·.filter (·.mayMatch q)) =
      pages.flatten.flatten.filter (·.mayMatch q) := by
  have read : ∀ page ∈ pages, ∀ group ∈ page, ∀ block ∈ group, block.mayMatch q = true →
      (BlockSummary.join (group.map (·.toBlockSummary))).mayMatch signal q = true := by
    intro page inPages group inPage block inGroup met
    have signal :=
      same block (mem_flatten.mpr ⟨group, mem_flatten.mpr ⟨page, inPages, inPage⟩, inGroup⟩)
    exact BlockSummary.mayMatch_join (mem_map_of_mem inGroup) (signal ▸ met)
  have skipped : ∀ page ∈ pages, ∀ group ∈ page,
      (BlockSummary.join (group.map (·.toBlockSummary))).mayMatch signal q = false →
        group.filter (·.mayMatch q) = [] := by
    intro page inPages group inPage unmet
    refine filter_eq_nil_iff.mpr fun block inGroup met => ?_
    rw [read page inPages group inPage block inGroup met] at unmet
    cases unmet
  unfold candidateGroups
  dsimp only
  rw [flatMap_assoc, flatMap_filter_of_nil]
  · rw [filter_flatten, map_flatten, flatten_flatten, map_map, flatMap_def]
    refine congrArg flatten (map_congr_left fun page inPages => ?_)
    rw [flatMap_filter_of_nil (skipped page inPages), flatMap_def]
    rfl
  · intro page _ unmet
    rw [flatMap_eq_nil_iff]
    intro group kept
    obtain ⟨inPage, met⟩ := mem_filter.mp kept
    rw [BlockSummary.mayMatch_join (mem_map_of_mem inPage) met] at unmet
    cases unmet

/-! ## Records of a block -/

def correlationTimeMatches (query : CorrelationQuery) (timestamp : Nat) : Bool :=
  query.startTimeUnixNanos.all (· ≤ timestamp) && query.endTimeUnixNanos.all (timestamp ≤ ·)

/-- `span_matches_correlation` and `metric_matches_correlation` -/
def matchesCorrelation (query : CorrelationQuery) (record : SignalRecord) : Bool :=
  record.tenant = query.tenant && (queryKeys query).all fun key => record.visitedKeys.contains key

/-- The addresses that a block contributes. -/
def TierBlock.found (query : CorrelationQuery) (block : TierBlock) : List TelemetryRecordRef :=
  (block.records.filter fun record =>
    correlationTimeMatches query record.timestampUnixNanos && matchesCorrelation query record).map
      (·.recordRef)

/-! ## Logs -/

structure LogRecord where
  offset : Nat
  timestampUnixNanos : Nat
  message : Text
  fields : List MetadataField
  deriving DecidableEq

instance : StructuralRecordView LogRecord where
  offset := LogRecord.offset
  timestampUnixNanos := LogRecord.timestampUnixNanos
  message := LogRecord.message
  fields := LogRecord.fields

/-- A batch of logs of one tenant in one partition. -/
structure LogAppend where
  tenant : Text
  topicPartition : TopicPartition
  records : List LogRecord
  deriving DecidableEq

/-- The logs of a partition. -/
def logRecords (logs : List LogAppend) (partition : TopicPartition) : List LogRecord :=
  (logs.filter (·.topicPartition = partition)).flatMap (·.records)

def logRef (partition : TopicPartition) (record : LogRecord) : TelemetryRecordRef :=
  ⟨.logs, partition, record.offset⟩

def queryRefs (engine : TextEngine) (logs : List LogAppend) (query : LogQuery) :
    List TelemetryRecordRef :=
  if query.limit = some 0 || query.hasInvalidRange then []
  else (query.select engine (logRecords logs query.topicPartition)).map
    (logRef query.topicPartition)

def hexDigit (value : Nat) : Char :=
  ['0', '1', '2', '3', '4', '5', '6', '7', '8', '9', 'a', 'b', 'c', 'd', 'e', 'f'].getD value '0'

/-- `{:032x}`, from the given number of digits on. -/
def hexText : Nat → Nat → Text
  | 0, _ => []
  | digits + 1, value => hexText digits (value / 16) ++ [hexDigit (value % 16)]

def idText (id : Nat) : Text := hexText 32 id

/-- `LogPredicate::field_equals` -/
def predicateFieldEquals (key value : Text) : LogPredicate := .field key ⟨value, .exact, .sensitive⟩

/-- A label, wherever a log may carry it. -/
def labelPredicate (label : Text × Text) : LogPredicate :=
  .anyOf
    ([label.1, "resource.".toList ++ label.1, "scope.".toList ++ label.1, "attr.".toList ++ label.1,
    "resource.loki.label.".toList ++ label.1, "attr.loki.metadata.".toList ++ label.1].map
      fun field => predicateFieldEquals field label.2)

/-- The log query of a partition.  Nothing in it is about the tenant. -/
def logQuery (query : CorrelationQuery) (partition : TopicPartition) (startOffset : Option Nat) :
    LogQuery :=
  { LogQuery.new partition with
    predicate := .allOf (query.labels.map labelPredicate)
    limit := some query.limit
    startTimestampUnixNanos := query.startTimeUnixNanos
    endTimestampUnixNanos := query.endTimeUnixNanos
    startOffset
    exactFields := query.traceId.toList.map (⟨"otel.trace_id".toList, idText ·⟩) ++
      query.resourceId.toList.map (⟨"otel.resource.id".toList, idText ·⟩) ++
      query.scopeId.toList.map (⟨"otel.scope.id".toList, idText ·⟩) }

/-- Whether logs are asked at all. -/
def asksLogs (query : CorrelationQuery) : Bool :=
  query.signal.all (· = .logs) && query.attributes.length = query.labels.length &&
    (query.traceId.isSome || query.resourceId.isSome || query.scopeId.isSome ||
      !query.labels.isEmpty)

/-! ## Stripes -/

/-- What stripes are configured with: the router of logs by tenant and trace, the number of log
partitions and the tables for texts. -/
structure Setting where
  router : Text → Nat → TopicPartition
  logPartitions : Nat
  engine : TextEngine
  correlations : CorrelationConfig
  /-- Whether there is an object tier. -/
  tiered : Bool
  /-- How the blocks of a signal are laid out: in pages of groups. -/
  layout : List TierBlock → List (List (List TierBlock))
  flatten_layout : ∀ blocks, (layout blocks).flatten.flatten = blocks

structure StripeState where
  correlations : CorrelationIndex
  logs : List LogAppend
  /-- The published blocks, those of traces and those of metrics. -/
  blocks : List TierBlock

variable (setting : Setting)

/-- The partitions whose logs are asked. -/
def askedPartitions (query : CorrelationQuery) : List TopicPartition :=
  match query.traceId with
  | some traceId => [setting.router query.tenant traceId]
  | none => (range setting.logPartitions).map fun partition =>
    ⟨TelemetrySignal.logs.topicId, partition⟩

/-- What one partition contributes, from the given page on. -/
def partitionLogs (logs : List LogAppend) (query : CorrelationQuery) (partition : TopicPartition) :
    List TelemetryRecordRef :=
  match query.after.filter (·.signal = .logs) with
  | none => queryRefs setting.engine logs (logQuery query partition none)
  | some after =>
    if partition.key < after.topicPartition.key then []
    else if after.topicPartition = partition then
      match checkedAdd after.offset 1 with
      | none => []
      | some start => queryRefs setting.engine logs (logQuery query partition (some start))
    else queryRefs setting.engine logs (logQuery query partition none)

def correlatedLogs (logs : List LogAppend) (query : CorrelationQuery) : List TelemetryRecordRef :=
  if asksLogs query && query.after.all (·.signal.number ≤ TelemetrySignal.logs.number) then
    (askedPartitions setting query).flatMap (partitionLogs setting logs query)
  else []

/-- Whether the blocks of a signal are asked. -/
def asksBlocks (query : CorrelationQuery) (signal : TelemetrySignal) : Bool :=
  query.signal.all (· = signal) && query.after.all (·.signal.number ≤ signal.number)

/-- `TierQueryRange::validate` -/
def validRange (query : CorrelationQuery) : Bool :=
  query.startTimeUnixNanos.all fun start => query.endTimeUnixNanos.all (start ≤ ·)

/-- The blocks of a signal that are read. -/
def readBlocks (blocks : List TierBlock) (query : CorrelationQuery) (signal : TelemetrySignal) :
    TelemetryResult (List TierBlock) :=
  if asksBlocks query signal && setting.tiered then do
    ensure (validRange query) (.invalidQuery "tier query range starts after its end")
    let pages := setting.layout (blocks.filter (·.signal = signal))
    return (candidateGroups pages signal query).flatMap (·.filter (·.mayMatch query))
  else return []

def queryCorrelationStripe (stripe : StripeState) (query : CorrelationQuery) :
    TelemetryResult (List TelemetryRecordRef) :=
  if query.limit = 0 || (query.traceId.isNone && query.resourceId.isNone && query.scopeId.isNone &&
      query.attributes.isEmpty) then return []
  else do
    let refs := stripe.correlations.queryInto query ++ correlatedLogs setting stripe.logs query
    let traces ← readBlocks setting stripe.blocks query .traces
    let refs := traces.foldl
      (fun refs block => settle query.after query.limit (refs ++ block.found query)) refs
    let metrics ← readBlocks setting stripe.blocks query .metrics
    let refs := metrics.foldl
      (fun refs block => settle query.after query.limit (refs ++ block.found query)) refs
    return settle query.after query.limit refs

/-! ## The service and the store -/

/-- `TelemetrySinkService::query_correlations` -/
def serviceCorrelations (stripes : List StripeState) (query : CorrelationQuery) :
    TelemetryResult (List TelemetryRecordRef) :=
  if query.limit = 0 then return []
  else do
    let answers ← stripes.mapM fun stripe => queryCorrelationStripe setting stripe query
    return settle query.after query.limit answers.flatten

/-- The query within what the store retains, if anything is left of it. -/
def retainedQuery (cutoff : Option Nat) (query : CorrelationQuery) : Option CorrelationQuery :=
  match cutoff with
  | none => some query
  | some cutoff =>
    if query.endTimeUnixNanos.any (· < cutoff) then none
    else some { query with
      startTimeUnixNanos := some (query.startTimeUnixNanos.elim cutoff (max · cutoff)) }

def queryCorrelations (cutoff : Option Nat) (stripes : List StripeState)
    (query : CorrelationQuery) : TelemetryResult (List TelemetryRecordRef) :=
  match retainedQuery cutoff query with
  | none => return []
  | some query => serviceCorrelations setting stripes query

/-! ## What happens to a stripe -/

inductive StripeEvent where
  /-- A batch of logs is indexed. -/
  | logged (append : LogAppend)
  /-- A span or a metric point is stored and indexed. -/
  | indexed (record : SignalRecord)
  /-- A block of spans or of metric points is published. -/
  | published (block : TierBlock)
  /-- Expired postings are dropped. -/
  | expired (cutoff : Nat)

def StripeState.apply (stripe : StripeState) : StripeEvent → StripeState
  | .logged append => { stripe with logs := stripe.logs ++ [append] }
  | .indexed record => { stripe with correlations := stripe.correlations.indexRecord record }
  | .published block => { stripe with blocks := stripe.blocks ++ [block] }
  | .expired cutoff =>
    { stripe with correlations := stripe.correlations.retainSinceTimestamp cutoff }

/-- The state of a stripe after what happened to it. -/
def stripeOf (events : List StripeEvent) : StripeState :=
  events.foldl StripeState.apply ⟨.new setting.correlations, [], []⟩

end ShardTelemetry.Correlation
