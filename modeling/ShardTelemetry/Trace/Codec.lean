import ShardTelemetry.Trace.Span

/-!
# The trace block codec

A block holds spans of one partition, sorted by their traces, starts and offsets.  It has a header,
five sections (offsets, starts, durations, identifiers and sidecars) and a BLAKE3 digest.  The
identifiers are written in two lanes: a group for each trace, with the bytes that differ from the
trace before and how many spans it has, and for each span the bytes that differ from the span
before, with a marker for its parent.

A block may be decoded for a query: spans that it does not ask for are left out as they are decoded,
and a block of another partition is not even checked.
-/

namespace ShardTelemetry.Trace

open Bytes

/-! ## Sections -/

def appendSection (contents : List UInt8) : TelemetryResult (List UInt8) := do
  let length ← lengthBytes contents.length
  return length ++ contents

def readSection : Reader TelemetryError (List UInt8) := do
  let length ← uint 4 (invalid "truncated trace block section length")
  take length (invalid "truncated trace block section")

def readByte : Reader TelemetryError UInt8 := byte (invalid "truncated span ID lane")

def compressU64 (pco : Metric.Pco UInt64) (values : List UInt64) : TelemetryResult (List UInt8) :=
  compressing (pco.simpleCompress values)

def decompressU64 (pco : Metric.Pco UInt64) (encoded : List UInt8) (count : Nat) :
    TelemetryResult (List UInt64) :=
  Metric.decompressInto pco encoded count "invalid trace Pco lane" "trace Pco lane count mismatch"

/-! ## Identifiers -/

/-- The identifiers of a span: its trace, its own and that of its parent. -/
abbrev SpanIds := TraceId × SpanId × Option SpanId

/-- How many spans in a row belong to each trace. -/
def traceGroups : List TraceId → List (TraceId × Nat)
  | [] => []
  | id :: rest =>
    match traceGroups rest with
    | [] => [(id, 1)]
    | (next, run) :: groups =>
      if next = id then (id, run + 1) :: groups else (id, 1) :: (next, run) :: groups

def writeTraceRun (run : Nat) : List UInt8 := Varint.write 64 run

def readTraceRun : Reader TelemetryError Nat :=
  Varint.read 64 (invalid "truncated span ID lane") (invalid "grouped trace ID run length overflow")
    (some (invalid "grouped trace ID run length overflow"))

/-- How many bytes two traces have in common at the front. -/
def sharedBytes : List UInt8 → List UInt8 → Nat
  | left :: lefts, right :: rights => if left = right then sharedBytes lefts rights + 1 else 0
  | _, _ => 0

/-- The bytes of a group after the bytes of the trace before. -/
def encodeGroup (previous : BitVec 128) (group : TraceId × Nat) : List UInt8 :=
  let shared := sharedBytes group.1.asBytes (toBE 16 previous.toNat)
  UInt8.ofNat shared :: group.1.asBytes.drop shared ++ writeTraceRun group.2

def encodeGroups : BitVec 128 → List (TraceId × Nat) → List UInt8
  | _, [] => []
  | previous, group :: groups => encodeGroup previous group ++ encodeGroups group.1.value groups

/-- A group of at most so many spans. -/
def decodeGroup (remaining : Nat) (previous : BitVec 128) :
    Reader TelemetryError (TraceId × Nat) := do
  let shared ← readByte
  require (shared.toNat < 16) (invalid "invalid grouped trace ID prefix lane")
  let bytes ← take (16 - shared.toNat) (invalid "invalid grouped trace ID prefix lane")
  let run ← readTraceRun
  require (run ≠ 0 && run ≤ remaining) (invalid "invalid grouped trace ID run length")
  let id ← lift (TraceId.fromBytes ((toBE 16 previous.toNat).take shared.toNat ++ bytes))
  return (id, run)

/-- The loop until all spans have their trace.  A group has one span at least, so that as many
rounds as there are spans are enough. -/
def decodeGroups : Nat → Nat → BitVec 128 → Reader TelemetryError (List TraceId)
  | _, 0, _ => return []
  | 0, _ + 1, _ => return []
  | rounds + 1, remaining + 1, previous => do
    let (id, run) ← decodeGroup (remaining + 1) previous
    let rest ← decodeGroups rounds (remaining + 1 - run) id.value
    return List.replicate run id ++ rest

def decodeTraceGroups (encoded : List UInt8) (count : Nat) : TelemetryResult (List TraceId) := do
  let (traces, rest) ← decodeGroups count count 0 encoded
  ensure rest.isEmpty (invalid "trailing grouped trace ID bytes")
  return traces

def encodeXorId (current previous : BitVec 64) : List UInt8 :=
  let bytes := toBE 8 (current ^^^ previous).toNat
  let leading := (bytes.takeWhile (· = 0)).length
  UInt8.ofNat leading :: bytes.drop leading

def decodeXorId (previous : BitVec 64) : Reader TelemetryError (BitVec 64) := do
  let leading ← readByte
  require (leading.toNat ≤ 8) (invalid "invalid XOR ID lane")
  let bytes ← take (8 - leading.toNat) (invalid "invalid XOR ID lane")
  return previous ^^^ BitVec.ofNat 64 (ofBE (List.replicate leading.toNat 0 ++ bytes))

/-- What both sides remember of the spans before. -/
structure IdState where
  previousTrace : BitVec 128
  previousSpan : BitVec 64
  previousParent : BitVec 64
  firstSpanInTrace : BitVec 64

namespace IdState

def start : IdState := ⟨0, 0, 0, 0⟩

def sameTrace (state : IdState) (trace : TraceId) : Bool := trace.value = state.previousTrace

def next (state : IdState) (ids : SpanIds) : IdState where
  previousTrace := ids.1.value
  previousSpan := ids.2.1.value
  previousParent := (ids.2.2.map (·.value)).getD state.previousParent
  firstSpanInTrace := if state.sameTrace ids.1 then state.firstSpanInTrace else ids.2.1.value

end IdState

def encodeParent (state : IdState) (sameTrace : Bool) : Option SpanId → List UInt8
  | none => [0]
  | some parent =>
    if sameTrace && parent.value = state.previousSpan then [2]
    else if sameTrace && parent.value = state.firstSpanInTrace then [3]
    else 1 :: encodeXorId parent.value state.previousParent

def encodeSpanLane : IdState → List SpanIds → List UInt8
  | _, [] => []
  | state, ids :: rest =>
    encodeXorId ids.2.1.value state.previousSpan ++
      encodeParent state (state.sameTrace ids.1) ids.2.2 ++ encodeSpanLane (state.next ids) rest

def encodeSpanIds (records : List SpanIds) : TelemetryResult (List UInt8) := do
  let groups ← appendSection (encodeGroups 0 (traceGroups (records.map (·.1))))
  return groups ++ encodeSpanLane .start records

def decodeParent (state : IdState) (sameTrace : Bool) : Reader TelemetryError (Option SpanId) := do
  let marker ← readByte
  if marker = 0 then return none
  else if marker = 1 then
    let parent ← decodeXorId state.previousParent
    let parent ← lift (SpanId.fromValue parent)
    return some parent
  else if marker = 2 && sameTrace then
    let parent ← lift (SpanId.fromValue state.previousSpan)
    return some parent
  else if marker = 3 && sameTrace then
    let parent ← lift (SpanId.fromValue state.firstSpanInTrace)
    return some parent
  else throw (invalid "invalid parent span marker")

def decodeSpanLane : IdState → List TraceId → Reader TelemetryError (List SpanIds)
  | _, [] => return []
  | state, trace :: rest => do
    let span ← decodeXorId state.previousSpan
    let parent ← decodeParent state (state.sameTrace trace)
    let span ← lift (SpanId.fromValue span)
    let later ← decodeSpanLane (state.next (trace, span, parent)) rest
    return (trace, span, parent) :: later

def decodeSpanIds (encoded : List UInt8) (count : Nat) : TelemetryResult (List SpanIds) := do
  let (groups, lane) ← readSection encoded
  let traces ← decodeTraceGroups groups count
  let (ids, rest) ← decodeSpanLane .start traces lane
  ensure rest.isEmpty (invalid "trailing span ID lane bytes")
  return ids

/-! ## Sidecars -/

structure PackedSpanSidecar where
  tenantId : UInt32
  resourceId : UInt32
  scopeId : UInt32
  traceStateId : UInt32
  flags : UInt32
  nameId : UInt32
  kind : Int32
  attributesId : UInt32
  droppedAttributesCount : UInt32
  eventsId : UInt32
  droppedEventsCount : UInt32
  linksId : UInt32
  droppedLinksCount : UInt32
  statusId : UInt32
  deriving DecidableEq

/-- What spans refer to. -/
structure SidecarTables (Value : Type) where
  tenants : List String
  resources : List (ResourceContext Value)
  scopes : List (ScopeContext Value)
  traceStates : List String
  names : List String
  attributeSets : List (List (TelemetryAttribute Value))
  eventSets : List (List (SpanEvent Value))
  linkSets : List (List (SpanLink Value))
  statuses : List (Option SpanStatus)
  deriving DecidableEq

structure TraceBlockSidecars (Value : Type) extends SidecarTables Value where
  spans : List PackedSpanSidecar
  deriving DecidableEq

/-- The same code as for the sidecars of metrics. -/
abbrev SidecarInterner (α : Type) := Metric.MetricSidecarInterner α

/-- The interners of a block. -/
structure Interners (Value : Type) where
  tenants : SidecarInterner String
  resources : SidecarInterner (ResourceContext Value)
  scopes : SidecarInterner (ScopeContext Value)
  traceStates : SidecarInterner String
  names : SidecarInterner String
  attributeSets : SidecarInterner (List (TelemetryAttribute Value))
  eventSets : SidecarInterner (List (SpanEvent Value))
  linkSets : SidecarInterner (List (SpanLink Value))
  statuses : SidecarInterner (Option SpanStatus)

section Block

variable {Value : Type}

def Interners.new : Interners Value := ⟨.new, .new, .new, .new, .new, .new, .new, .new, .new⟩

def Interners.tables (interners : Interners Value) : SidecarTables Value where
  tenants := interners.tenants.values
  resources := interners.resources.values
  scopes := interners.scopes.values
  traceStates := interners.traceStates.values
  names := interners.names.values
  attributeSets := interners.attributeSets.values
  eventSets := interners.eventSets.values
  linkSets := interners.linkSets.values
  statuses := interners.statuses.values

def packSpan [DecidableEq Value] (interners : Interners Value) (span : DurableSpan Value) :
    TelemetryResult (Interners Value × PackedSpanSidecar) := do
  let (tenantId, tenants) ← interners.tenants.intern span.tenant
  let (resourceId, resources) ← interners.resources.intern span.resource
  let (scopeId, scopes) ← interners.scopes.intern span.scope
  let (traceStateId, traceStates) ← interners.traceStates.intern span.traceState
  let (nameId, names) ← interners.names.intern span.name
  let (attributesId, attributeSets) ← interners.attributeSets.intern span.attributes
  let (eventsId, eventSets) ← interners.eventSets.intern span.events
  let (linksId, linkSets) ← interners.linkSets.intern span.links
  let (statusId, statuses) ← interners.statuses.intern span.status
  return (⟨tenants, resources, scopes, traceStates, names, attributeSets, eventSets,
    linkSets, statuses⟩,
    ⟨tenantId, resourceId, scopeId, traceStateId, span.flags, nameId, span.kind, attributesId,
      span.droppedAttributesCount, eventsId, span.droppedEventsCount, linksId,
        span.droppedLinksCount,
      statusId⟩)

/-- The loop over the spans. -/
def packSpans [DecidableEq Value] : Interners Value → List (DurableSpan Value) →
    TelemetryResult (Interners Value × List PackedSpanSidecar)
  | interners, [] => .ok (interners, [])
  | interners, span :: rest => do
    let (interners, packed) ← packSpan interners span
    let (interners, later) ← packSpans interners rest
    return (interners, packed :: later)

def encodeTraceSidecars [DecidableEq Value] (records : List (DurableSpan Value)) :
    TelemetryResult (TraceBlockSidecars Value) := do
  let (interners, packed) ← packSpans .new records
  return { interners.tables with spans := packed }

/-- The lanes of sidecars, for their texts. -/
inductive SidecarLane where
  | tenant
  | resource
  | scope
  | traceState
  | name
  | attributes
  | events
  | links
  | status

def SidecarLane.error : SidecarLane → TelemetryError
  | .tenant => invalid "trace tenant sidecar ID is out of range"
  | .resource => invalid "trace resource sidecar ID is out of range"
  | .scope => invalid "trace scope sidecar ID is out of range"
  | .traceState => invalid "trace state sidecar ID is out of range"
  | .name => invalid "trace name sidecar ID is out of range"
  | .attributes => invalid "trace attribute sidecar ID is out of range"
  | .events => invalid "trace event sidecar ID is out of range"
  | .links => invalid "trace link sidecar ID is out of range"
  | .status => invalid "trace status sidecar ID is out of range"

def traceSidecar {α : Type} (values : List α) (id : UInt32) (lane : SidecarLane) :
    TelemetryResult α :=
  okOr lane.error values[id.toNat]?

/-! ## Blocks -/

/-- What the codec relies on. -/
structure Backend (Value : Type) where
  digest : List UInt8 → List UInt8
  length_digest : ∀ contents, (digest contents).length = 32
  pco : Metric.Pco UInt64
  zstd : Zstd
  sidecars : Metric.Messagepack (TraceBlockSidecars Value)
  /-- `sort_unstable_by_key`: spans with equal keys come in any order. -/
  sortUnstable : List (DurableSpan Value) → List (DurableSpan Value)
  sortUnstable_perm : ∀ spans, (sortUnstable spans).Perm spans
  sortUnstable_pairwise :
    ∀ spans, (sortUnstable spans).Pairwise fun left right => left.sortKey ≤ right.sortKey
  /-- `telemetry_value_matches_rendered` -/
  valueMatches : Value → String → Bool

/-- `STSP` -/
def blockMagic : List UInt8 := [0x53, 0x54, 0x53, 0x50]
def blockVersion : UInt8 := 1
def fixedHeader : Nat := 36
def sidecarLimit : Nat := 256 * 1024 * 1024

def DurableSpan.ids (span : DurableSpan Value) : SpanIds :=
  (span.traceId, span.spanId, span.parentSpanId)

/-- A span has the partition and the owner of another one. -/
def DurableSpan.agrees (first span : DurableSpan Value) : Bool :=
  span.recordRef.signal = .traces &&
    topicPartition span.recordRef = topicPartition first.recordRef &&
    span.streamShardId = first.streamShardId

variable (backend : Backend Value)

def encodeTraceBlock [DecidableEq Value] (records : List (DurableSpan Value)) :
    TelemetryResult (List UInt8) :=
  match records with
  | [] => .error (invalid "trace block must contain at least one span")
  | first :: _ => do
    ensure (records.all first.agrees)
      (invalid "trace block records do not share a trace partition and owner")
    let sorted := backend.sortUnstable records
    let idLane ← encodeSpanIds (sorted.map (·.ids))
    let sidecars ← encodeTraceSidecars sorted
    let sidecarBytes ← compressing (backend.sidecars.toVec sidecars)
    let compressedSidecars ← compressing (backend.zstd.compress sidecarBytes)
    let count ← lengthBytes sorted.length
    let offsets ← compressU64 backend.pco (sorted.map (·.recordRef.offset))
    let starts ← compressU64 backend.pco (sorted.map (·.startTimeUnixNanos))
    let durations ← compressU64 backend.pco (sorted.map (·.durationNanos))
    let offsets ← appendSection offsets
    let starts ← appendSection starts
    let durations ← appendSection durations
    let ids ← appendSection idLane
    let sidecars ← appendSection compressedSidecars
    let encoded := blockMagic ++ blockVersion :: [0, 0, 0] ++ toLE 4 first.streamShardId.toNat ++
      toLE 16 first.recordRef.topicId.toNat ++ toLE 4 first.recordRef.partitionId.toNat ++ count ++
      offsets ++ starts ++ durations ++ ids ++ sidecars
    return encoded ++ backend.digest encoded

/-- The fields of the header after the magic, the version and the flags. -/
structure BlockHeader where
  streamShardId : UInt32
  topicId : BitVec 128
  partitionId : UInt32
  count : Nat

def BlockHeader.topicPartition (header : BlockHeader) : TopicPartition :=
  (header.topicId, header.partitionId)

/-- The header, whose length was checked before. -/
def readHeader : Reader TelemetryError BlockHeader := do
  let _ ← take 8 (invalid "missing trace block header")
  let streamShardId ← uint 4 (invalid "missing trace block header")
  let topicId ← uint 16 (invalid "missing trace block header")
  let partitionId ← uint 4 (invalid "missing trace block header")
  let count ← uint 4 (invalid "missing trace block header")
  return ⟨UInt32.ofNat streamShardId, BitVec.ofNat 128 topicId, UInt32.ofNat partitionId, count⟩

/-- What the sections hold. -/
structure BlockLanes where
  offsets : List UInt64
  starts : List UInt64
  durations : List UInt64
  ids : List SpanIds
  compressedSidecars : List UInt8

def readLanes (count : Nat) : Reader TelemetryError BlockLanes := do
  let offsets ← readSection
  let offsets ← lift (decompressU64 backend.pco offsets count)
  let starts ← readSection
  let starts ← lift (decompressU64 backend.pco starts count)
  let durations ← readSection
  let durations ← lift (decompressU64 backend.pco durations count)
  let ids ← readSection
  let ids ← lift (decodeSpanIds ids count)
  let compressedSidecars ← readSection
  return ⟨offsets, starts, durations, ids, compressedSidecars⟩

/-- What the lanes have for one span. -/
structure SpanRow where
  offset : UInt64
  start : UInt64
  duration : UInt64
  ids : SpanIds
  sidecar : PackedSpanSidecar

def spanRows (lanes : BlockLanes) (sidecars : List PackedSpanSidecar) : List SpanRow :=
  ((((lanes.offsets.zip lanes.starts).zip lanes.durations).zip lanes.ids).zip sidecars).map
    fun ((((offset, start), duration), ids), sidecar) => ⟨offset, start, duration, ids, sidecar⟩

/-- Whether a query leaves a span out, from what is known of it before it is put together. -/
def leavesOut (query : TraceQuery) (partition : TopicPartition) (row : SpanRow)
    (tenant name : String)
    (attributes : List (TelemetryAttribute Value)) (resource : ResourceContext Value)
    (scope : ScopeContext Value) : Bool :=
  decide (tenant ≠ query.tenant) || query.partition.any (· ≠ partition) ||
    query.traceId.any (· ≠ row.ids.1) || query.spanId.any (· ≠ row.ids.2.1) ||
      query.name.any (· ≠ name) ||
    !renderedAttributesMatch backend.valueMatches attributes query.exactAttributes ||
    !renderedAttributesMatch backend.valueMatches resource.attributes
      query.exactResourceAttributes ||
    !renderedAttributesMatch backend.valueMatches scope.attributes query.exactScopeAttributes ||
    query.startTimeUnixNanos.any (min (row.start.toNat + row.duration.toNat) (2 ^ 64 - 1) < ·) ||
    query.endTimeUnixNanos.any (· ≤ row.start.toNat) ||
    query.minDurationNanos.any (row.duration.toNat < ·)

/-- One round of the loop over the rows: all references are checked before the query is. -/
def decodeSpan (query : Option TraceQuery) (header : BlockHeader) (tables : SidecarTables Value)
    (row : SpanRow) : TelemetryResult (Option (DurableSpan Value)) := do
  let sidecar := row.sidecar
  let tenant ← traceSidecar tables.tenants sidecar.tenantId .tenant
  let resource ← traceSidecar tables.resources sidecar.resourceId .resource
  let scope ← traceSidecar tables.scopes sidecar.scopeId .scope
  let traceState ← traceSidecar tables.traceStates sidecar.traceStateId .traceState
  let name ← traceSidecar tables.names sidecar.nameId .name
  let attributes ← traceSidecar tables.attributeSets sidecar.attributesId .attributes
  let events ← traceSidecar tables.eventSets sidecar.eventsId .events
  let links ← traceSidecar tables.linkSets sidecar.linksId .links
  let status ← traceSidecar tables.statuses sidecar.statusId .status
  if query.any fun query => leavesOut backend query header.topicPartition row tenant name attributes
    resource scope
  then return none
  else
    return some {
      streamShardId := header.streamShardId
      recordRef := ⟨.traces, header.topicId, header.partitionId, row.offset⟩
      tenant, resource, scope
      traceId := row.ids.1
      spanId := row.ids.2.1
      parentSpanId := row.ids.2.2
      traceState
      flags := sidecar.flags
      name
      kind := sidecar.kind
      startTimeUnixNanos := row.start
      durationNanos := row.duration
      attributes
      droppedAttributesCount := sidecar.droppedAttributesCount
      events
      droppedEventsCount := sidecar.droppedEventsCount
      links
      droppedLinksCount := sidecar.droppedLinksCount
      status }

def decodeTraceBlockFiltered (encoded : List UInt8) (query : Option TraceQuery) :
    TelemetryResult (List (DurableSpan Value)) := do
  ensure (fixedHeader + 32 ≤ encoded.length && encoded.take 4 = blockMagic)
    (invalid "missing trace block header")
  ensure ((encoded.drop 4).take 4 = blockVersion :: [0, 0, 0])
    (invalid "unsupported trace block version or flags")
  let payload := encoded.take (encoded.length - 32)
  let (header, sections) ← readHeader payload
  if query.any fun query => query.partition.any (· ≠ header.topicPartition) then return []
  else
    ensure (backend.digest payload = encoded.drop (encoded.length - 32))
      (invalid "trace block checksum mismatch")
    ensure (header.count ≠ 0) (invalid "trace block has no spans")
    let (lanes, rest) ← readLanes backend header.count sections
    ensure rest.isEmpty (invalid "trailing trace block sections")
    let sidecarBytes ← decoding (invalid "invalid trace sidecar compression")
      (backend.zstd.decompress lanes.compressedSidecars sidecarLimit)
    let sidecars ← okOr (invalid "invalid trace sidecars") (backend.sidecars.fromSlice sidecarBytes)
    ensure (sidecars.spans.length = header.count) (invalid "trace sidecar count mismatch")
    let decoded ← (spanRows lanes sidecars.spans).mapM
      (decodeSpan backend query header sidecars.toSidecarTables)
    return decoded.reduceOption

def decodeTraceBlock (encoded : List UInt8) : TelemetryResult (List (DurableSpan Value)) :=
  decodeTraceBlockFiltered backend encoded none

def decodeTraceBlockMatching (encoded : List UInt8) (query : TraceQuery) :
    TelemetryResult (List (DurableSpan Value)) :=
  decodeTraceBlockFiltered backend encoded (some query)

end Block

end ShardTelemetry.Trace
