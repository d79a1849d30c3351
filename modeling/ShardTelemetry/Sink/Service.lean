import ShardTelemetry.Sink.Journal
import ShardTelemetry.Sink.Stripe

/-!
# The durable sink

`apply_durable_appends` writes a transaction to the journal, indexes its appends, offloads what is
due and then moves the checkpoint of the partition.  `TelemetrySinkFactory::new` rebuilds a sink
from what is durable: it takes the latest checkpoint of every attached catalog, opens the journal,
and replays the journaled transactions that no catalog covers.

This is the sink of one physical shard with its journal.  Of the trace and metric halves of the
stripe only what concerns checkpoints is kept: the environment decides whether indexing a payload
succeeds and whether a partition publishes, and a publication records its checkpoint.
-/

namespace ShardTelemetry.Sink

open Tier (ObjectTierConfig TierCheckpoint Digest)

/-- The part of an envelope that indexing reads. -/
structure TelemetryEnvelopeView where
  signal : TelemetrySignal
  tenant : String
  itemCount : Nat
  payload : List UInt8
  deriving DecidableEq

/-- How durable payloads are decoded. -/
structure Decoder (ι : Type) extends PackDecoder ι where
  isEncoded : List UInt8 → Bool
  view : (alreadyValidated : Bool) → List UInt8 → TelemetryResult TelemetryEnvelopeView

/-- What the environment decides during one call. -/
structure Env where
  /-- How the attempts to publish log groups end. -/
  attempts : Attempts
  /-- Whether indexing a trace or metric payload succeeds. -/
  indexSignal : TopicPartition → List UInt8 → TelemetryResult Unit
  /-- Whether a trace or metric partition publishes a group, and how the attempt ends. -/
  signalAttempt : TopicPartition → Option Attempt

structure TelemetryStripeState (ι : Type) where
  streamShardId : Nat
  logs : LogStripe ι
  /-- The latest checkpoint in the catalog of each attached trace or metric partition. -/
  signalTiers : TopicPartition → Option (Option TierCheckpoint)

inductive DurableSinkApply where
  | applied
  | checkpointConflict (actual : DurableSinkCheckpoint)
  deriving DecidableEq

/-- Error passed on to the engine. -/
inductive EngineError where
  | durableSinkCheckpoint (reason : String)
  /-- A sink error, passed on by its text. -/
  | invalidConfig (cause : TelemetryError)
  deriving DecidableEq

/-- The worker of one shard. -/
structure TelemetrySink (ι : Type) where
  journal : SinkJournal
  stripe : TelemetryStripeState ι
  checkpoints : Checkpoints

variable {ι : Type}

/-! ## Indexing a payload -/

/-- Everything `index_payload` is told about an append. -/
structure PayloadAppend where
  topicPartition : TopicPartition
  firstOffset : Nat
  expectedCount : Option Nat
  payload : List UInt8
  transientContext : Option (List UInt8)
  alreadyValidated : Bool
  expected : DurableSinkCheckpoint
  next : DurableSinkCheckpoint

/-- The envelope of a payload, once it is known to belong where it was found. -/
def openEnvelope (decoder : Decoder ι) (append : PayloadAppend) :
    TelemetryResult TelemetryEnvelopeView := do
  ensure (decoder.isEncoded append.payload)
    (.invalidTelemetryEnvelope "durable telemetry append is not a STEL envelope")
  let envelope ← decoder.view append.alreadyValidated append.payload
  ensure (envelope.signal.topicId = append.topicPartition.topicId)
    (.invalidTelemetryEnvelope "signal does not match its shard-stream topic")
  ensure (append.expectedCount.all (· = envelope.itemCount))
    (.invalidTelemetryEnvelope "durable reservation count disagrees with envelope")
  return envelope

/-- The pack inside the envelope of a log append. -/
def PayloadAppend.pack (append : PayloadAppend) (envelope : TelemetryEnvelopeView) :
    PackAppend where
  tenant := envelope.tenant
  topicPartition := append.topicPartition
  firstOffset := append.firstOffset
  recordCount := envelope.itemCount
  payload := append.payload.drop (append.payload.length - envelope.payload.length)
  transientContext := append.transientContext
  payloadAlreadyValidated := append.alreadyValidated
  expected := append.expected
  next := append.next

def indexPayload (decoder : Decoder ι) (env : Env) (append : PayloadAppend)
    (stripe : TelemetryStripeState ι) : TelemetryResult Unit × TelemetryStripeState ι :=
  match openEnvelope decoder append with
  | .error error => (.error error, stripe)
  | .ok envelope =>
    match envelope.signal with
    | .logs =>
      if append.payload.length < envelope.payload.length then
        (.error (.invalidTelemetryEnvelope "log payload is outside its envelope"), stripe)
      else
        let (result, logs) := stripe.logs.applyCheckpointedIngestPack decoder.toPackDecoder
          (append.pack envelope)
        (result, { stripe with logs })
    | .traces | .metrics => (env.indexSignal append.topicPartition append.payload, stripe)

def DurableAppend.toPayload (append : DurableAppend) (expected next : DurableSinkCheckpoint) :
    PayloadAppend where
  topicPartition := append.topicPartition
  firstOffset := append.reservation.firstOffset
  expectedCount := some append.reservation.recordCount
  payload := append.payload
  transientContext := append.transientContext
  alreadyValidated := true
  expected
  next

def indexDurableAppends (decoder : Decoder ι) (env : Env) (expected next : DurableSinkCheckpoint) :
    List DurableAppend → TelemetryStripeState ι → TelemetryResult Unit × TelemetryStripeState ι
  | [], stripe => (.ok (), stripe)
  | append :: rest, stripe =>
    if append.physicalShardId ≠ stripe.streamShardId then
      (.error (.wrongStripe stripe.streamShardId append.physicalShardId), stripe)
    else
      match indexPayload decoder env (append.toPayload expected next) stripe with
      | (.error error, stripe) => (.error error, stripe)
      | (.ok (), stripe) => indexDurableAppends decoder env expected next rest stripe

/-! ## Offloading -/

/-- Publish what a trace or metric partition holds, if the environment says that a group is due. -/
def offloadSignalPartition (env : Env) (partition : TopicPartition)
    (checkpoint : DurableSinkCheckpoint) (stripe : TelemetryStripeState ι) :
    TelemetryResult Unit × TelemetryStripeState ι :=
  let published : TierCheckpoint := ⟨checkpoint.nextPlacementSequence, checkpoint.nextOffset⟩
  let stripe' := { stripe with
    signalTiers := Function.update stripe.signalTiers partition (some (some published)) }
  match stripe.signalTiers partition, env.signalAttempt partition with
  | some latest, some attempt =>
    if latest.all (published.covers ·) then
      match attempt with
      | .completes => (.ok (), stripe')
      | .failsBefore error => (.error error, stripe)
      | .failsAfter error => (.error error, stripe')
    else (.error (.objectStore "group checkpoints must advance monotonically"), stripe)
  | _, _ => (.ok (), stripe)

/-- Index the appends of a transaction, then offload what is due. -/
def indexAndOffload (decoder : Decoder ι) (checksum : List UInt8 → Digest) (env : Env)
    (expected : DurableSinkCheckpoint) (appends : List DurableAppend) (next : DurableSinkCheckpoint)
    (stripe : TelemetryStripeState ι) : TelemetryResult Unit × TelemetryStripeState ι :=
  match indexDurableAppends decoder env expected next appends stripe with
  | (.error error, stripe) => (.error error, stripe)
  | (.ok (), stripe) =>
    match stripe.logs.offloadIndexedGroups checksum env.attempts false with
    | (.error error, logs) => (.error error, { stripe with logs })
    | (.ok _, logs) =>
      if next.topicPartition.topicId = TelemetrySignal.traces.topicId ∨
          next.topicPartition.topicId = TelemetrySignal.metrics.topicId then
        offloadSignalPartition env next.topicPartition next { stripe with logs }
      else (.ok (), { stripe with logs })

/-- The loop of `flush_object_tiers` over the trace and metric partitions. -/
def flushSignals (env : Env) (checkpoints : Checkpoints) :
    List TopicPartition → TelemetryStripeState ι → TelemetryResult Unit × TelemetryStripeState ι
  | [], stripe => (.ok (), stripe)
  | partition :: rest, stripe =>
    match checkpoints partition with
    | none => flushSignals env checkpoints rest stripe
    | some checkpoint =>
      match offloadSignalPartition env partition checkpoint stripe with
      | (.error error, stripe) => (.error error, stripe)
      | (.ok (), stripe) => flushSignals env checkpoints rest stripe

/-- Publish everything that is checkpointed; reclaiming retired objects afterwards changes nothing
that is modelled here. -/
def TelemetrySink.flushObjectTiers (checksum : List UInt8 → Digest) (env : Env)
    (signalPartitions : List TopicPartition) (sink : TelemetrySink ι) :
    TelemetryResult Unit × TelemetrySink ι :=
  match sink.stripe.logs.offloadIndexedGroups checksum env.attempts true with
  | (.error error, logs) => (.error error, { sink with stripe := { sink.stripe with logs } })
  | (.ok _, logs) =>
    let (result, stripe) := flushSignals env sink.checkpoints signalPartitions
      { sink.stripe with logs }
    (result, { sink with stripe })

/-! ## Applying a transaction -/

def TelemetrySink.applyDurableAppends [StreamEngine] (decoder : Decoder ι) (hash : Hash)
    (checksum : List UInt8 → Digest) (env : Env) (io : JournalIo) (expected : DurableSinkCheckpoint)
    (appends : List DurableAppend)
    (next : DurableSinkCheckpoint) (sink : TelemetrySink ι) :
    Except EngineError DurableSinkApply × TelemetrySink ι :=
  if expected.topicPartition ≠ next.topicPartition then
    (.error (.durableSinkCheckpoint
      "expected and next checkpoints refer to different partitions"), sink)
  else if appends.any fun append => append.topicPartition ≠ expected.topicPartition then
    (.error (.durableSinkCheckpoint
      "sink transaction contains appends from another partition"), sink)
  else
    let actual := sink.checkpoints.actual expected.topicPartition
    if checkpointAllowsLaneGap actual expected then
      match sink.journal.append hash io expected appends next with
      | (.error error, journal) => (.error (.invalidConfig error), { sink with journal })
      | (.ok (), journal) =>
        match indexAndOffload decoder checksum env expected appends next sink.stripe with
        | (.error error, stripe) => (.error (.invalidConfig error), { sink with journal, stripe })
        | (.ok (), stripe) =>
          (.ok .applied, { journal, stripe, checkpoints := sink.checkpoints.insert next })
    else (.ok (.checkpointConflict actual), sink)

/-! ## Start-up -/

structure SinkConfig where
  shardId : Nat
  maxJournalBytes : Nat
  maxJournalBytes_lt : maxJournalBytes < u64Bound
  journalSyncEachAppend : Bool
  tier : ObjectTierConfig
  /-- Partitions with an object tier, of any signal; none without an object tier. -/
  partitions : List TopicPartition

/-- Partitions are ordered by topic and number. -/
def partitionLt (left right : TopicPartition) : Bool :=
  left.topicId < right.topicId ||
    left.topicId = right.topicId && left.partitionId < right.partitionId

def SinkConfig.validate (config : SinkConfig) : TelemetryResult Unit := do
  ensure (8 ≤ config.maxJournalBytes)
    (.invalidConfig "log sink max_journal_bytes must fit its header")
  ensure (List.all (config.partitions.zip config.partitions.tail) fun pair =>
      partitionLt pair.1 pair.2)
    (.invalidConfig "object-tier partitions must be nonempty, sorted, and unique")

def SinkConfig.partitionsOf (config : SinkConfig) (signal : TelemetrySignal) :
    List TopicPartition :=
  config.partitions.filter (·.topicId = signal.topicId)

/-- The trace and metric partitions with an object tier. -/
def SinkConfig.signalPartitions (config : SinkConfig) : List TopicPartition :=
  config.partitionsOf .traces ++ config.partitionsOf .metrics

/-- What survives the process. -/
structure Durable (ι : Type) where
  /-- The bytes of the journal file. -/
  contents : List UInt8
  logTiers : TopicPartition → PartitionTier ι
  signalTiers : TopicPartition → Option TierCheckpoint

/-- The checkpoint a catalog reports for its partition. -/
def recoveredCheckpoint (partition : TopicPartition) (checkpoint : TierCheckpoint) :
    DurableSinkCheckpoint :=
  ⟨partition, checkpoint.nextPlacementSequence, checkpoint.nextOffset⟩

/-- The checkpoints the catalogs of some partitions report. -/
def reportedCheckpoints (latest : TopicPartition → Option TierCheckpoint)
    (partitions : List TopicPartition) : List DurableSinkCheckpoint :=
  partitions.filterMap fun partition => (latest partition).map (recoveredCheckpoint partition)

/-- A stripe with its object tiers and nothing resident.  Frame identifiers start behind those of
every log catalog. -/
def attachStripe (config : SinkConfig) (store : Durable ι) : TelemetryStripeState ι where
  streamShardId := config.shardId
  logs := {
    nextFrameId := (config.partitionsOf .logs).foldl
      (fun next partition => max next (store.logTiers partition).nextBlockId) 0
    indexedFramePartitions := fun _ => ⟨[], none⟩
    tier := if (config.partitionsOf .logs).isEmpty then none
      else some ⟨config.tier, config.partitionsOf .logs, store.logTiers⟩ }
  signalTiers := fun partition =>
    if partition ∈ config.signalPartitions then some (store.signalTiers partition) else none

def mergeRecoveredCheckpoints (checkpoints : Checkpoints)
    (candidates : List DurableSinkCheckpoint) : TelemetryResult Checkpoints :=
  candidates.foldlM mergeRecoveredCheckpoint checkpoints

/-- The order in which recovered transactions are replayed. -/
def RecoveredTransaction.Before (self other : RecoveredTransaction) : Prop :=
  self.partition.topicId < other.partition.topicId ∨
    self.partition.topicId = other.partition.topicId ∧
      (self.partition.partitionId < other.partition.partitionId ∨
        self.partition.partitionId = other.partition.partitionId ∧
          self.expected.nextPlacementSequence ≤ other.expected.nextPlacementSequence)

instance : DecidableRel RecoveredTransaction.Before :=
  fun _ _ => inferInstanceAs (Decidable (_ ∨ _))

def RecoveredAppend.toPayload (append : RecoveredAppend) (expected next : DurableSinkCheckpoint) :
    PayloadAppend where
  topicPartition := append.topicPartition
  firstOffset := append.firstOffset
  expectedCount := none
  payload := append.payload
  transientContext := none
  alreadyValidated := false
  expected
  next

/-- Index the appends of a recovered transaction. -/
def replayAppends (decoder : Decoder ι) (env : Env) (expected next : DurableSinkCheckpoint) :
    List RecoveredAppend → TelemetryStripeState ι → TelemetryResult (TelemetryStripeState ι)
  | [], stripe => .ok stripe
  | append :: rest, stripe =>
    match indexPayload decoder env (append.toPayload expected next) stripe with
    | (.error error, _) => .error error
    | (.ok (), stripe) => replayAppends decoder env expected next rest stripe

/-- The replay loop of start-up. -/
def replayTransactions [StreamEngine] (decoder : Decoder ι) (env : Env) :
    List RecoveredTransaction → Checkpoints → TelemetryStripeState ι →
      TelemetryResult (Checkpoints × TelemetryStripeState ι)
  | [], checkpoints, stripe => .ok (checkpoints, stripe)
  | transaction :: rest, checkpoints, stripe =>
    let actual := checkpoints.actual transaction.partition
    if checkpointCovers actual transaction.next then
      replayTransactions decoder env rest checkpoints stripe
    else if checkpointAllowsLaneGap actual transaction.expected then do
      let stripe ← replayAppends decoder env transaction.expected transaction.next
        transaction.appends stripe
      replayTransactions decoder env rest (checkpoints.insert transaction.next) stripe
    else
      .error (.corruptSinkJournal "recovered checkpoint chain conflicts across stripes")

/-- `TelemetrySinkFactory::new` for one shard, from what is durable. -/
def TelemetrySink.new [StreamEngine] (decoder : Decoder ι) (hash : Hash) (config : SinkConfig)
    (env : Env) (store : Durable ι) : TelemetryResult (TelemetrySink ι) := do
  config.validate
  let checkpoints ← mergeRecoveredCheckpoints (fun _ => none)
    (reportedCheckpoints (fun partition => (store.logTiers partition).latestCheckpoint)
      (config.partitionsOf .logs))
  let (journal, transactions) ← SinkJournal.openFile hash store.contents config.shardId
    config.maxJournalBytes config.journalSyncEachAppend
  let checkpoints ← mergeRecoveredCheckpoints checkpoints
    (reportedCheckpoints store.signalTiers config.signalPartitions)
  let (checkpoints, stripe) ← replayTransactions decoder env
    (transactions.insertionSort RecoveredTransaction.Before) checkpoints (attachStripe config store)
  return { journal, stripe, checkpoints }

end ShardTelemetry.Sink
