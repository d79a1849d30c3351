import Mathlib.Data.List.AList
import Mathlib.Data.List.Sort
import ShardTelemetry.Query.Text
import ShardTelemetry.RecordRef

/-!
# The correlation index

A stripe links its spans and metric points by what they share: traces, resources, scopes and
attributes.  For each tenant and key there is a list of postings, ordered by the addresses of the
records.  The index is bounded.  What does not fit is dropped and counted, and the bounds are shared
by all tenants.

Identities (traces, resource and scope contexts, attributes) are 128-bit numbers.  The caches in
front of the fingerprints of contexts and attributes are left out.
-/

namespace ShardTelemetry.Correlation

open Query (Text)

structure CorrelationConfig where
  maxKeys : Nat
  maxRefsPerKey : Nat
  maxTotalRefs : Nat

/-- Constraints on records of any signal, all of which have to hold. -/
structure CorrelationQuery where
  tenant : Text
  traceId : Option Nat
  resourceId : Option Nat
  scopeId : Option Nat
  attributes : List Nat
  labels : List (Text × Text)
  signal : Option TelemetrySignal
  startTimeUnixNanos : Option Nat
  endTimeUnixNanos : Option Nat
  after : Option TelemetryRecordRef
  limit : Nat

inductive CorrelationKey where
  | trace (id : Nat)
  | resource (id : Nat)
  | scope (id : Nat)
  | attribute (id : Nat)
  deriving DecidableEq

/-- The keys that a query asks for. -/
def queryKeys (query : CorrelationQuery) : List CorrelationKey :=
  query.traceId.toList.map .trace ++ query.resourceId.toList.map .resource ++
    query.scopeId.toList.map .scope ++ query.attributes.map .attribute

/-! ## Records -/

/-- A resource or an instrumentation scope, by its fingerprint and those of its attributes. -/
structure Context where
  id : Nat
  attributes : List Nat
  deriving DecidableEq

/-- What the index and the scan of published blocks see of a span or a metric point. -/
structure SignalRecord where
  tenant : Text
  recordRef : TelemetryRecordRef
  timestampUnixNanos : Nat
  /-- The keys in the order in which they are indexed. -/
  indexedKeys : List CorrelationKey
  /-- The keys that a scan visits. -/
  visitedKeys : List CorrelationKey
  /-- Logs are not among these records. -/
  signal_ne : recordRef.signal ≠ .logs

def attributeKeys (attributes : List Nat) : List CorrelationKey := attributes.map .attribute

/-- The keys of `index_contexts`. -/
def contextKeys (resource scope : Context) : List CorrelationKey :=
  [.resource resource.id, .scope scope.id] ++ attributeKeys resource.attributes ++
    attributeKeys scope.attributes

structure DurableSpan where
  tenant : Text
  topicPartition : TopicPartition
  offset : Nat
  startTimeUnixNanos : UInt64
  traceId : Nat
  resource : Context
  scope : Context
  attributes : List Nat
  /-- The attributes of each event. -/
  events : List (List Nat)
  /-- The trace and the attributes of each link. -/
  links : List (Nat × List Nat)

/-- `index_span` and `visit_span_keys` -/
def DurableSpan.record (span : DurableSpan) : SignalRecord where
  tenant := span.tenant
  recordRef := ⟨.traces, span.topicPartition, span.offset⟩
  timestampUnixNanos := span.startTimeUnixNanos.toNat
  indexedKeys := .trace span.traceId ::
    ((span.links.flatMap fun link => .trace link.1 :: attributeKeys link.2) ++
      contextKeys span.resource span.scope ++ attributeKeys span.attributes ++
      span.events.flatMap attributeKeys)
  visitedKeys := .trace span.traceId ::
    (contextKeys span.resource span.scope ++ attributeKeys span.attributes ++
      span.events.flatMap attributeKeys ++
      span.links.flatMap fun link => .trace link.1 :: attributeKeys link.2)
  signal_ne := nofun

structure DurableMetricPoint where
  tenant : Text
  topicPartition : TopicPartition
  offset : Nat
  timestampUnixNanos : Nat
  resource : Context
  scope : Context
  pointAttributes : List Nat
  metadata : List Nat
  /-- The trace, if there is one, and the filtered attributes of each exemplar. -/
  exemplars : List (Option Nat × List Nat)

/-- The keys of the exemplars of a point. -/
def DurableMetricPoint.exemplarKeys (point : DurableMetricPoint) : List CorrelationKey :=
  point.exemplars.flatMap fun exemplar =>
    exemplar.1.toList.map .trace ++ attributeKeys exemplar.2

/-- `index_metric` and `visit_metric_keys` -/
def DurableMetricPoint.record (point : DurableMetricPoint) : SignalRecord where
  tenant := point.tenant
  recordRef := ⟨.metrics, point.topicPartition, point.offset⟩
  timestampUnixNanos := point.timestampUnixNanos
  indexedKeys := point.exemplarKeys ++ contextKeys point.resource point.scope ++
    attributeKeys point.pointAttributes ++ attributeKeys point.metadata
  visitedKeys := contextKeys point.resource point.scope ++ attributeKeys point.pointAttributes ++
    attributeKeys point.metadata ++ point.exemplarKeys
  signal_ne := nofun

/-! ## Postings -/

structure CorrelationPosting where
  recordRef : TelemetryRecordRef
  timestampUnixNanos : Nat
  deriving DecidableEq

/-- `partition_point` of the postings up to an address. -/
def laterThan (after : Option TelemetryRecordRef) (postings : List CorrelationPosting) :
    List CorrelationPosting :=
  match after with
  | some after => postings.dropWhile fun posting => posting.recordRef ≤ after
  | none => postings

/-- A posting at its place, or `none` if its record is there already. -/
def place (posting : CorrelationPosting) (refs : List CorrelationPosting) :
    Option (List CorrelationPosting) :=
  if refs.getLast?.all (·.recordRef < posting.recordRef) then some (refs ++ [posting])
  else if refs.any (·.recordRef = posting.recordRef) then none
  else some (refs.takeWhile (·.recordRef < posting.recordRef) ++
    posting :: refs.dropWhile (·.recordRef < posting.recordRef))

def correlationPostingMatches (query : CorrelationQuery) (posting : CorrelationPosting) : Bool :=
  query.signal.all (posting.recordRef.signal = ·) &&
    query.startTimeUnixNanos.all (· ≤ posting.timestampUnixNanos) &&
    query.endTimeUnixNanos.all (posting.timestampUnixNanos ≤ ·)

def querySinglePosting (query : CorrelationQuery) (postings : List CorrelationPosting) :
    List TelemetryRecordRef :=
  let rest := laterThan query.after postings
  if query.signal.isNone && query.startTimeUnixNanos.isNone && query.endTimeUnixNanos.isNone then
    (rest.take query.limit).map (·.recordRef)
  else ((rest.filter (correlationPostingMatches query)).take query.limit).map (·.recordRef)

/-- The merge of two lists of postings; the cursor into the second one is what is left of it. -/
def mergeTwo (query : CorrelationQuery) : List CorrelationPosting → List CorrelationPosting →
    List TelemetryRecordRef
  | [], _ => []
  | posting :: first, incoming =>
    if correlationPostingMatches query posting then
      let incoming := incoming.dropWhile (·.recordRef < posting.recordRef)
      if incoming.head?.any (·.recordRef = posting.recordRef) then
        posting.recordRef :: mergeTwo query first incoming
      else mergeTwo query first incoming
    else mergeTwo query first incoming

def queryTwoPostings (query : CorrelationQuery) (left right : List CorrelationPosting) :
    List TelemetryRecordRef :=
  let (first, incoming) := if left.length ≤ right.length then (left, right) else (right, left)
  (mergeTwo query (laterThan query.after first) (laterThan query.after incoming)).take query.limit

/-- What a candidate finds in the other lists. -/
inductive Probe where
  /-- A list is exhausted, which ends the search. -/
  | exhausted
  | absent (cursors : List (List CorrelationPosting))
  | present (cursors : List (List CorrelationPosting))

/-- Advance the cursors to a record, up to the first list that does not have it. -/
def probe (record : TelemetryRecordRef) : List (List CorrelationPosting) → Probe
  | [] => .present []
  | incoming :: rest =>
    let incoming := incoming.dropWhile (·.recordRef < record)
    match incoming.head? with
    | none => .exhausted
    | some current =>
      if current.recordRef ≠ record then .absent (incoming :: rest)
      else match probe record rest with
        | .exhausted => .exhausted
        | .absent cursors => .absent (incoming :: cursors)
        | .present cursors => .present (incoming :: cursors)

def mergeMany (query : CorrelationQuery) :
    List CorrelationPosting → List (List CorrelationPosting) → List TelemetryRecordRef
  | [], _ => []
  | posting :: first, cursors =>
    if correlationPostingMatches query posting then
      match probe posting.recordRef cursors with
      | .exhausted => []
      | .absent cursors => mergeMany query first cursors
      | .present cursors => posting.recordRef :: mergeMany query first cursors
    else mergeMany query first cursors

def queryManyPostings (query : CorrelationQuery) (lists : List (List CorrelationPosting)) :
    List TelemetryRecordRef :=
  match lists.insertionSort fun left right => left.length ≤ right.length with
  | [] => []
  | first :: others =>
    (mergeMany query (laterThan query.after first) (others.map (laterThan query.after))).take
      query.limit

/-- The postings that the keys of a query have in common.  A third key is taken from the iterator to
see whether there are more than two, and its postings are not asked. -/
def queryPostings (query : CorrelationQuery) (postings : CorrelationKey → List CorrelationPosting) :
    List TelemetryRecordRef :=
  match queryKeys query with
  | [] => []
  | [key] => querySinglePosting query (postings key)
  | [first, second] => queryTwoPostings query (postings first) (postings second)
  | first :: second :: _ :: rest => queryManyPostings query ((first :: second :: rest).map postings)

/-! ## The index -/

structure CorrelationIndex where
  config : CorrelationConfig
  /-- The tenants; the position of a tenant is its number. -/
  tenants : List Text
  postings : AList fun _ : Nat × CorrelationKey => List CorrelationPosting
  refs : Nat
  droppedPostings : Nat

namespace CorrelationIndex

def new (config : CorrelationConfig) : CorrelationIndex := ⟨config, [], ∅, 0, 0⟩

/-- Count a posting that is left out. -/
def drop (index : CorrelationIndex) : CorrelationIndex :=
  { index with droppedPostings := saturatingAdd index.droppedPostings 1 }

def tenantId (index : CorrelationIndex) (tenant : Text) : CorrelationIndex × Option Nat :=
  match index.tenants.idxOf? tenant with
  | some id => (index, some id)
  | none =>
    if index.config.maxKeys ≤ index.postings.keys.length then (index.drop, none)
    else if index.tenants.length < 2 ^ 32 then
      ({ index with tenants := index.tenants ++ [tenant] }, some index.tenants.length)
    else (index, none)

/-- The list of a key, which is made if there is room for it. -/
def slot (index : CorrelationIndex) (lookup : Nat × CorrelationKey) :
    Option (CorrelationIndex × List CorrelationPosting) :=
  match index.postings.lookup lookup with
  | some refs => some (index, refs)
  | none =>
    if index.postings.keys.length < index.config.maxKeys then
      some ({ index with postings := index.postings.insert lookup [] }, [])
    else none

def insert (index : CorrelationIndex) (tenantId : Nat) (key : CorrelationKey)
    (posting : CorrelationPosting) : CorrelationIndex :=
  match index.slot (tenantId, key) with
  | none => index.drop
  | some (index, refs) =>
    if refs.getLast?.any (·.recordRef = posting.recordRef) then index
    else if index.config.maxRefsPerKey ≤ refs.length || index.config.maxTotalRefs ≤ index.refs then
      index.drop
    else match place posting refs with
      | none => index
      | some refs =>
        { index with
          postings := index.postings.insert (tenantId, key) refs, refs := index.refs + 1 }

/-- `index_span` and `index_metric` -/
def indexRecord (index : CorrelationIndex) (record : SignalRecord) : CorrelationIndex :=
  match index.tenantId record.tenant with
  | (index, none) => index
  | (index, some id) =>
    record.indexedKeys.foldl
      (fun index key => index.insert id key ⟨record.recordRef, record.timestampUnixNanos⟩) index

/-- What is left of the postings of a key. -/
def retained (cutoff : Nat) (entry : Σ _ : Nat × CorrelationKey, List CorrelationPosting) :
    Option (Σ _ : Nat × CorrelationKey, List CorrelationPosting) :=
  let kept := entry.2.filter (cutoff ≤ ·.timestampUnixNanos)
  if kept.isEmpty then none else some ⟨entry.1, kept⟩

theorem nodupKeys_retained (cutoff)
    (postings : AList fun _ : Nat × CorrelationKey => List CorrelationPosting) :
    (postings.entries.filterMap (retained cutoff)).NodupKeys := by
  have sublist :
      (postings.entries.filterMap (retained cutoff)).keys.Sublist postings.entries.keys := by
    generalize postings.entries = entries
    induction entries with
    | nil => exact List.Sublist.refl _
    | cons entry entries ih =>
      rw [List.filterMap_cons]
      unfold retained
      dsimp only
      split
      · next none =>
        exact ih.cons entry.1
      · next kept some =>
        split at some
        · cases some
        · cases some
          exact ih.cons_cons entry.1
  exact sublist.nodup postings.nodupKeys

def retainSinceTimestamp (index : CorrelationIndex) (cutoff : Nat) : CorrelationIndex :=
  let postings : AList _ := ⟨index.postings.entries.filterMap (retained cutoff),
    nodupKeys_retained cutoff index.postings⟩
  { index with postings, refs := (postings.entries.map fun entry => entry.2.length).sum }

def queryInto (index : CorrelationIndex) (query : CorrelationQuery) : List TelemetryRecordRef :=
  if query.limit = 0 then []
  else match index.tenants.idxOf? query.tenant with
    | none => []
    | some id => queryPostings query fun key => (index.postings.lookup (id, key)).getD []

end CorrelationIndex

end ShardTelemetry.Correlation
