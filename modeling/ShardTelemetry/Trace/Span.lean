import ShardTelemetry.Metric.Codec

/-!
# Spans and trace queries

A span is addressed by its record, and known by its tenant, its trace and its own identifier.  The
values of attributes are only compared, passed on, and matched against a text; how a value is
rendered as a text is left to a parameter.
-/

namespace ShardTelemetry.Trace

open Bytes

/-! ## Identifiers -/

/-- A trace identifier: sixteen bytes, read as a number with the most significant byte first, that
are not all zero. -/
structure TraceId where
  value : BitVec 128
  nonzero : value ≠ 0
  deriving DecidableEq

/-- A span identifier, of eight bytes. -/
structure SpanId where
  value : BitVec 64
  nonzero : value ≠ 0
  deriving DecidableEq

def TraceId.asBytes (id : TraceId) : List UInt8 := toBE 16 id.value.toNat

def TraceId.fromBytes (bytes : List UInt8) : TelemetryResult TraceId :=
  if nonzero : BitVec.ofNat 128 (ofBE bytes) ≠ 0 then .ok ⟨_, nonzero⟩ else .error .invalidTraceId

/-- `SpanId::from_bytes`, of the bytes of a number. -/
def SpanId.fromValue (value : BitVec 64) : TelemetryResult SpanId :=
  if nonzero : value ≠ 0 then .ok ⟨value, nonzero⟩ else .error .invalidSpanId

/-! ## Spans -/

structure TelemetryAttribute (Value : Type) where
  key : String
  keyStrindex : Int32
  value : Option Value
  deriving DecidableEq

structure TelemetryEntityRef where
  schemaUrl : String
  entityType : String
  idKeys : List String
  descriptionKeys : List String
  deriving DecidableEq

structure ResourceContext (Value : Type) where
  attributes : List (TelemetryAttribute Value)
  droppedAttributesCount : UInt32
  schemaUrl : String
  entityRefs : List TelemetryEntityRef
  deriving DecidableEq

structure ScopeContext (Value : Type) where
  name : String
  version : String
  attributes : List (TelemetryAttribute Value)
  droppedAttributesCount : UInt32
  schemaUrl : String
  deriving DecidableEq

structure SpanStatus where
  message : String
  code : Int32
  deriving DecidableEq

structure SpanEvent (Value : Type) where
  timestampUnixNanos : UInt64
  name : String
  attributes : List (TelemetryAttribute Value)
  droppedAttributesCount : UInt32
  deriving DecidableEq

structure SpanLink (Value : Type) where
  traceId : TraceId
  spanId : SpanId
  traceState : String
  attributes : List (TelemetryAttribute Value)
  droppedAttributesCount : UInt32
  flags : UInt32
  deriving DecidableEq

/-- The address of a record: its signal, its partition and its offset. -/
abbrev TelemetryRecordRef := Metric.MetricRecordRef

/-- A partition: its topic and its number. -/
abbrev TopicPartition := BitVec 128 × UInt32

def topicPartition (ref : TelemetryRecordRef) : TopicPartition := (ref.topicId, ref.partitionId)

structure DurableSpan (Value : Type) where
  streamShardId : UInt32
  recordRef : TelemetryRecordRef
  tenant : String
  resource : ResourceContext Value
  scope : ScopeContext Value
  traceId : TraceId
  spanId : SpanId
  parentSpanId : Option SpanId
  traceState : String
  flags : UInt32
  name : String
  kind : Int32
  startTimeUnixNanos : UInt64
  durationNanos : UInt64
  attributes : List (TelemetryAttribute Value)
  droppedAttributesCount : UInt32
  events : List (SpanEvent Value)
  droppedEventsCount : UInt32
  links : List (SpanLink Value)
  droppedLinksCount : UInt32
  status : Option SpanStatus
  deriving DecidableEq

section Span

variable {Value : Type}

namespace DurableSpan

def offset (span : DurableSpan Value) : Nat := span.recordRef.offset.toNat

/-- The end, if it can be written in 64 bits. -/
def endTimeUnixNanos (span : DurableSpan Value) : Option Nat :=
  if span.startTimeUnixNanos.toNat + span.durationNanos.toNat < 2 ^ 64 then
    some (span.startTimeUnixNanos.toNat + span.durationNanos.toNat)
  else none

/-- Blocks are sorted by traces, starts and offsets. -/
def sortKey (span : DurableSpan Value) : Nat ×ₗ Nat ×ₗ Nat :=
  toLex (span.traceId.value.toNat, toLex (span.startTimeUnixNanos.toNat, span.offset))

end DurableSpan

/-! ## Queries -/

structure TraceQuery where
  tenant : String
  partition : Option TopicPartition
  traceId : Option TraceId
  spanId : Option SpanId
  name : Option String
  exactAttributes : List (String × String)
  exactResourceAttributes : List (String × String)
  exactScopeAttributes : List (String × String)
  startTimeUnixNanos : Option Nat
  endTimeUnixNanos : Option Nat
  minDurationNanos : Option Nat

variable (valueMatches : Value → String → Bool)

/-- Every expected pair is among the attributes. -/
def renderedAttributesMatch (attributes : List (TelemetryAttribute Value))
    (expected : List (String × String)) : Bool :=
  expected.all fun pair => attributes.any fun entry =>
    entry.key = pair.1 && entry.value.any (valueMatches · pair.2)

def traceQueryMatches (query : TraceQuery) (span : DurableSpan Value) : Bool :=
  span.tenant = query.tenant && query.partition.all (· = topicPartition span.recordRef) &&
    query.traceId.all (· = span.traceId) && query.spanId.all (· = span.spanId) &&
    query.name.all (· = span.name) &&
    renderedAttributesMatch valueMatches span.attributes query.exactAttributes &&
    renderedAttributesMatch valueMatches span.resource.attributes query.exactResourceAttributes &&
    renderedAttributesMatch valueMatches span.scope.attributes query.exactScopeAttributes &&
    query.startTimeUnixNanos.all (· ≤ span.endTimeUnixNanos.getD (2 ^ 64 - 1)) &&
    query.endTimeUnixNanos.all (span.startTimeUnixNanos.toNat < ·) &&
    query.minDurationNanos.all (· ≤ span.durationNanos.toNat)

end Span

end ShardTelemetry.Trace
