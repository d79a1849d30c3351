import ShardTelemetry.Stripe.Blocks
import ShardTelemetry.Stripe.Table

/-!
# Applying records to a log stripe

A stripe keeps the records of its partitions, posting lists for their terms and fields, and the
blocks that the records wait in.  A record is validated, put into a block and only then indexed.  A
batch whose events all have the same message and fields is indexed once: its first record as usual,
the others by one range of ordinals at the end.
-/

namespace ShardTelemetry.Stripe

open Query

inductive TimestampOrder where
  | nonDecreasing
  | unordered
  deriving DecidableEq

structure PartitionIndex where
  records : List DurableLog
  terms : PostingTable Text
  fields : PostingTable MetadataField
  timestampOrder : TimestampOrder
  indexedThrough : Option Nat

namespace PartitionIndex

def empty : PartitionIndex := ⟨[], .empty, .empty, .nonDecreasing, none⟩

/-- The record with an offset. -/
def record (index : PartitionIndex) (offset : Nat) : Option DurableLog :=
  index.records.find? fun record => record.offset = offset

def lastOffset (index : PartitionIndex) : Option Nat :=
  index.records.getLast?.map (·.offset)

end PartitionIndex

structure CachedMessageTerms where
  topicPartition : TopicPartition
  message : Text
  termIds : List Nat

structure CachedFields where
  topicPartition : TopicPartition
  fields : List MetadataField
  fieldIds : List Nat

/-- Where the two caches look; hashes of what they are asked for. -/
structure CacheSlots where
  messageTermCacheSlot : TopicPartition → Text → Nat
  fieldCacheSlot : TopicPartition → List MetadataField → Nat

structure LogStripe where
  streamShardId : Nat
  config : StripeConfig
  /-- A partition that was never written to is empty. -/
  partitions : TopicPartition → PartitionIndex
  messageTermCache : Nat → Option CachedMessageTerms
  fieldCache : Nat → Option CachedFields
  blocks : BlockState

structure IndexReceipt where
  topicPartition : TopicPartition
  offset : Nat
  indexedThrough : Nat
  sealedBlocks : List SealedBlock

structure AppliedRecord where
  receipt : IndexReceipt
  ordinal : Nat
  termIds : List Nat
  fieldIds : List Nat

structure OtlpLogEvent where
  timestampUnixNanos : Nat
  message : Text
  fields : List MetadataField
  typed : List UInt8
  compressionCohort : Nat

def OtlpLogEvent.intoDurable (event : OtlpLogEvent) (streamShardId : Nat)
    (topicPartition : TopicPartition) (offset : Nat) : DurableLog where
  streamShardId
  topicPartition
  offset
  timestampUnixNanos := event.timestampUnixNanos
  message := event.message
  fields := event.fields
  typed := event.typed
  compressionCohort := event.compressionCohort

/-! ## Sizes and offsets -/

def validateU32Length (length : Nat) : TelemetryResult Unit :=
  ensure (length < 2 ^ 32) .recordTooLarge

def rowSourceBytes (record : DurableLog) : TelemetryResult Nat := do
  validateU32Length (utf8 record.message).length
  validateU32Length record.fields.length
  let total ← okOr .recordTooLarge (checkedAdd 24 (utf8 record.message).length)
  record.fields.foldlM (fun total field => do
    validateU32Length (utf8 field.key).length
    validateU32Length (utf8 field.value).length
    okOr .recordTooLarge do
      let total ← checkedAdd total 8
      let total ← checkedAdd total (utf8 field.key).length
      checkedAdd total (utf8 field.value).length) total

def batchOffset (topicPartition : TopicPartition) (firstOffset index : Nat) : TelemetryResult Nat :=
  okOr (.offsetExhausted topicPartition) (checkedAdd firstOffset index)

def validateBatchOffsetRange (topicPartition : TopicPartition) (firstOffset recordCount : Nat) :
    TelemetryResult Unit :=
  match recordCount with
  | 0 => .ok ()
  | lastIndex + 1 =>
    match batchOffset topicPartition firstOffset lastIndex with
    | .ok _ => .ok ()
    | .error error => .error error

namespace LogStripe

/-- A stripe without records. -/
def new (streamShardId : Nat) (config : StripeConfig) : LogStripe :=
  ⟨streamShardId, config, fun _ => .empty, fun _ => none, fun _ => none, ⟨∅, [], 0⟩⟩

def setPartition (stripe : LogStripe) (partition : TopicPartition) (index : PartitionIndex) :
    LogStripe :=
  { stripe with partitions := Function.update stripe.partitions partition index }

def validateOffset (stripe : LogStripe) (record : DurableLog) : TelemetryResult Unit :=
  match (stripe.partitions record.topicPartition).lastOffset with
  | none => .ok ()
  | some previous =>
    match checkedAdd previous 1 with
    | none => .error (.offsetExhausted record.topicPartition)
    | some expected =>
      if record.offset ≤ previous then
        .error (.offsetOutOfOrder record.topicPartition expected record.offset)
      else .ok ()

/-! ## Indexing -/

section Indexing

variable (engine : TextEngine) (slots : CacheSlots)

def cacheTerms (stripe : LogStripe) (slot : Nat) (cached : CachedMessageTerms) : LogStripe :=
  { stripe with messageTermCache := Function.update stripe.messageTermCache slot (some cached) }

def cacheFields (stripe : LogStripe) (slot : Nat) (cached : CachedFields) : LogStripe :=
  { stripe with fieldCache := Function.update stripe.fieldCache slot (some cached) }

/-- The terms a message is indexed by. -/
def indexTermsOf (message : Text) : List Text :=
  (messageTerms engine message).map (normalizeTerm engine)

variable (stripe : LogStripe) (record : DurableLog)

/-- The numbers of the terms of a message, from the cache or interned. -/
def termIds : List Nat × LogStripe :=
  let partition := record.topicPartition
  let slot := slots.messageTermCacheSlot partition record.message
  match (stripe.messageTermCache slot).filter fun cached =>
      cached.topicPartition = partition ∧ cached.message = record.message with
  | some cached => (cached.termIds, stripe)
  | none =>
    let index := stripe.partitions partition
    let interned := index.terms.internAll (indexTermsOf engine record.message) []
    (interned.1, (stripe.setPartition partition { index with terms := interned.2 }).cacheTerms slot
      ⟨partition, record.message, interned.1⟩)

def indexTerms (ordinal : Nat) : List Nat × LogStripe :=
  let ids := (stripe.termIds engine slots record).1
  let stripe := (stripe.termIds engine slots record).2
  let index := stripe.partitions record.topicPartition
  (ids, stripe.setPartition record.topicPartition
    { index with terms := index.terms.push ids ordinal })

/-- The numbers of fields, from the cache or interned. -/
def fieldIds : List Nat × LogStripe :=
  let partition := record.topicPartition
  let slot := slots.fieldCacheSlot partition record.fields
  match (stripe.fieldCache slot).filter fun cached =>
      cached.topicPartition = partition ∧ cached.fields = record.fields with
  | some cached => (cached.fieldIds, stripe)
  | none =>
    let index := stripe.partitions partition
    let interned := index.fields.internAll record.fields []
    (interned.1,
      (stripe.setPartition partition { index with fields := interned.2 }).cacheFields slot
      ⟨partition, record.fields, interned.1⟩)

def indexFields (ordinal : Nat) : List Nat × LogStripe :=
  let ids := (stripe.fieldIds slots record).1
  let stripe := (stripe.fieldIds slots record).2
  let index := stripe.partitions record.topicPartition
  (ids, stripe.setPartition record.topicPartition
    { index with fields := index.fields.push ids ordinal })

/-- Indexes a record; its publication comes last. -/
def indexDurable (ordinal : Nat) : List Nat × List Nat × LogStripe :=
  let terms := stripe.indexTerms engine slots record ordinal
  let fields := terms.2.indexFields slots record ordinal
  let stripe := fields.2
  (terms.1, fields.1, stripe.setPartition record.topicPartition
    { stripe.partitions record.topicPartition with indexedThrough := some record.offset })

/-! ## One record -/

/-- The order of the timestamps after a record was pushed. -/
def nextTimestampOrder (index : PartitionIndex) (record : DurableLog) : TimestampOrder :=
  match index.timestampOrder, index.records[index.records.length - 2]? with
  | .nonDecreasing, some previous =>
    if record.timestampUnixNanos < previous.timestampUnixNanos then .unordered else .nonDecreasing
  | order, _ => order

def pushRecord : LogStripe :=
  let index := stripe.partitions record.topicPartition
  stripe.setPartition record.topicPartition { index with records := index.records ++ [record] }

def popRecord (stripe : LogStripe) (partition : TopicPartition) : LogStripe :=
  let index := stripe.partitions partition
  stripe.setPartition partition { index with records := index.records.dropLast }

def updateTimestampOrder : LogStripe :=
  let index := stripe.partitions record.topicPartition
  stripe.setPartition record.topicPartition
    { index with timestampOrder := nextTimestampOrder index record }

def applyDurableNewInner (env : Environment) (stripe : LogStripe) (record : DurableLog)
    (indexRecord : Bool) : TelemetryResult AppliedRecord × LogStripe :=
  let partition := record.topicPartition
  match stripe.validateOffset record with
  | .error error => (.error error, stripe)
  | .ok () =>
  match rowSourceBytes record with
  | .error error => (.error error, stripe)
  | .ok sourceBytes =>
  match env.tentative stripe.blocks.clock record with
  | (_, .error error) => (.error error, { stripe with blocks := stripe.blocks.tick })
  | (placementId, .ok dictionaryId) =>
  let key : ActiveBlockKey := ⟨partition, record.compressionCohort, placementId, dictionaryId⟩
  let stripe := { stripe with blocks := stripe.blocks.tick }
  let ordinal := (stripe.partitions partition).records.length
  if 2 ^ 32 ≤ ordinal then (.error .recordTooLarge, stripe)
  else
  let stripe := stripe.pushRecord record
  match stripe.blocks.appendActive env stripe.config key ⟨record, sourceBytes⟩ with
  | (.error error, blocks) => (.error error, popRecord { stripe with blocks } partition)
  | (.ok sealedBlocks, blocks) =>
  let stripe := updateTimestampOrder { stripe with blocks } record
  let receipt : IndexReceipt := ⟨partition, record.offset, record.offset, sealedBlocks⟩
  if indexRecord then
    let indexed := stripe.indexDurable engine slots record ordinal
    (.ok ⟨receipt, ordinal, indexed.1, indexed.2.1⟩, indexed.2.2)
  else (.ok ⟨receipt, ordinal, [], []⟩, stripe)

def applyDurableNew (env : Environment) (stripe : LogStripe) (record : DurableLog) :
    TelemetryResult IndexReceipt × LogStripe :=
  match stripe.applyDurableNewInner engine slots env record true with
  | (.ok applied, stripe) => (.ok applied.receipt, stripe)
  | (.error error, stripe) => (.error error, stripe)

def applyDurable (env : Environment) (stripe : LogStripe) (record : DurableLog) :
    TelemetryResult IndexReceipt × LogStripe :=
  if record.streamShardId ≠ stripe.streamShardId then
    (.error (.wrongStripe stripe.streamShardId record.streamShardId), stripe)
  else if ((stripe.partitions record.topicPartition).record record.offset).isSome then
    (.error (.duplicateRecord record.topicPartition record.offset), stripe)
  else stripe.applyDurableNew engine slots env record

/-- A record that is there already is not applied again. -/
def applyDurableIdempotent (env : Environment) (stripe : LogStripe) (record : DurableLog) :
    TelemetryResult IndexReceipt × LogStripe :=
  let index := stripe.partitions record.topicPartition
  let existing := index.records.getLast?.bind fun last =>
    if last.offset < record.offset then none
    else if last.offset = record.offset then some last
    else index.record record.offset
  match existing with
  | some existing =>
    if existing ≠ record then
      (.error (.conflictingRecord record.topicPartition record.offset), stripe)
    else
      (.ok ⟨record.topicPartition, record.offset, index.indexedThrough.getD record.offset, []⟩,
        stripe)
  | none => stripe.applyDurableNew engine slots env record

/-! ## Batches -/

def canIndexAsHomogeneousRange (stripe : LogStripe) (topicPartition : TopicPartition)
    (firstOffset : Nat) : List OtlpLogEvent → Bool
  | first :: second :: events =>
    (match (stripe.partitions topicPartition).lastOffset with
      | some lastOffset => lastOffset < firstOffset
      | none => true) &&
    (second :: events).all fun event => first.message = event.message && first.fields = event.fields
  | _ => false

/-- The publication of the postings of a range of records. -/
def publishHomogeneousPostingRange (stripe : LogStripe) (topicPartition : TopicPartition)
    (firstOrdinal lastOrdinal lastOffset : Nat) (termIds fieldIds : List Nat) : LogStripe :=
  let index := stripe.partitions topicPartition
  stripe.setPartition topicPartition
    { index with
      terms := index.terms.pushRange termIds firstOrdinal lastOrdinal
      fields := index.fields.pushRange fieldIds firstOrdinal lastOrdinal
      indexedThrough := some lastOffset }

/-- What the loop over the deferred events has done. -/
structure Deferred where
  receipts : List IndexReceipt
  /-- The ordinal and the offset of the last event that was applied. -/
  lastDeferred : Option (Nat × Nat)

/-- The loop over the events after the first one, with the error that ended it. -/
def applyDeferred (env : Environment) (topicPartition : TopicPartition) (firstOffset : Nat) :
    Nat → List OtlpLogEvent → Deferred → LogStripe → Option TelemetryError × Deferred × LogStripe
  | _, [], deferred, stripe => (none, deferred, stripe)
  | position, event :: events, deferred, stripe =>
    match batchOffset topicPartition firstOffset position with
    | .error error => (some error, { deferred with lastDeferred := none }, stripe)
    | .ok offset =>
      match stripe.applyDurableNewInner engine slots env
          (event.intoDurable stripe.streamShardId topicPartition offset) false with
      | (.error error, stripe) => (some error, deferred, stripe)
      | (.ok applied, stripe) =>
        applyDeferred env topicPartition firstOffset (position + 1) events
          ⟨deferred.receipts ++ [applied.receipt], some (applied.ordinal, offset)⟩ stripe

/-- The events are known to be at least two, with one message and one list of fields. -/
def applyHomogeneousEvents (env : Environment) (stripe : LogStripe)
    (topicPartition : TopicPartition)
    (firstOffset : Nat) (first : OtlpLogEvent) (events : List OtlpLogEvent) :
    TelemetryResult (List IndexReceipt) × LogStripe :=
  match stripe.applyDurableNewInner engine slots env
      (first.intoDurable stripe.streamShardId topicPartition firstOffset) true with
  | (.error error, stripe) => (.error error, stripe)
  | (.ok applied, stripe) =>
    match stripe.applyDeferred engine slots env topicPartition firstOffset 1 events
        ⟨[applied.receipt], none⟩ with
    | (failure, deferred, stripe) =>
      -- what was applied is published, also when an error ended the loop
      let stripe := match deferred.lastDeferred with
        | none => stripe
        | some (lastOrdinal, lastOffset) =>
          stripe.publishHomogeneousPostingRange topicPartition (applied.ordinal + 1) lastOrdinal
            lastOffset applied.termIds applied.fieldIds
      match failure with
      | some error => (.error error, stripe)
      | none => (.ok deferred.receipts, stripe)

/-- The loop over the events of any other batch. -/
def applyEvents (env : Environment) (topicPartition : TopicPartition) (firstOffset : Nat) :
    Nat → List OtlpLogEvent → List IndexReceipt → LogStripe →
      TelemetryResult (List IndexReceipt) × LogStripe
  | _, [], receipts, stripe => (.ok receipts, stripe)
  | position, event :: events, receipts, stripe =>
    match batchOffset topicPartition firstOffset position with
    | .error error => (.error error, stripe)
    | .ok offset =>
      match stripe.applyDurableIdempotent engine slots env
          (event.intoDurable stripe.streamShardId topicPartition offset) with
      | (.error error, stripe) => (.error error, stripe)
      | (.ok receipt, stripe) =>
        applyEvents env topicPartition firstOffset (position + 1) events
          (receipts ++ [receipt]) stripe

def applyOtlpEvents (env : Environment) (stripe : LogStripe) (topicPartition : TopicPartition)
    (firstOffset : Nat) (events : List OtlpLogEvent) :
    TelemetryResult (List IndexReceipt) × LogStripe :=
  match env.refresh with
  | some error => (.error error, stripe)
  | none =>
    match validateBatchOffsetRange topicPartition firstOffset events.length with
    | .error error => (.error error, stripe)
    | .ok () =>
      if stripe.canIndexAsHomogeneousRange topicPartition firstOffset events then
        match events with
        | first :: events =>
          stripe.applyHomogeneousEvents engine slots env topicPartition firstOffset first events
        | [] => (.ok [], stripe)
      else stripe.applyEvents engine slots env topicPartition firstOffset 0 events []

end Indexing

def sealActiveBlocks (env : Environment) (stripe : LogStripe) :
    TelemetryResult (List SealedBlock) × LogStripe :=
  match stripe.blocks.sealActiveBlocks env stripe.config with
  | (result, blocks) => (result, { stripe with blocks })

end LogStripe

/-- A call of the stripe, with what it finds around it. -/
inductive Event where
  | applyDurable (env : Environment) (record : DurableLog)
  | applyOtlpEvents (env : Environment) (topicPartition : TopicPartition) (firstOffset : Nat)
      (events : List OtlpLogEvent)
  | sealActiveBlocks (env : Environment)

/-- The stripe after a call, whatever the call returns. -/
def LogStripe.step (engine : TextEngine) (slots : CacheSlots) (stripe : LogStripe) :
    Event → Option LogStripe
  | .applyDurable env record => some (stripe.applyDurable engine slots env record).2
  | .applyOtlpEvents env topicPartition firstOffset events =>
    some (stripe.applyOtlpEvents engine slots env topicPartition firstOffset events).2
  | .sealActiveBlocks env => some (stripe.sealActiveBlocks env).2

/-! ## A sample stripe -/

namespace LogStripe

/-- Blocks of 40 bytes, not collated. -/
def sampleConfig : StripeConfig := ⟨40, ⟨false, 0, 2, le_rfl⟩⟩

def sampleSlots : CacheSlots := ⟨fun _ _ => 0, fun _ _ => 0⟩

/-- Nothing fails, or the compression of blocks does. -/
def sampleEnvironment (failure : Option TelemetryError) : Environment where
  refresh := none
  tentative _ _ := (0, .ok none)
  resolveDictionary _ _ := .ok none
  scoring _ _ _ := ⟨fun _ => none, fun _ => 0, fun _ => true⟩
  failure _ _ _ := failure
  drain := id
  drain_perm _ := .rfl

end LogStripe

end ShardTelemetry.Stripe
