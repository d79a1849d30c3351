import ShardTelemetry.Tier.Validate
import ShardTelemetry.Sink.Checkpoint
import Mathlib.Data.List.Sort

/-!
# The log half of a sink stripe

A stripe indexes the compressed ingest packs of its log partitions as resident appends, each with
the frames it was decoded to, and moves a prefix of a partition's appends at a time to the object
tier as one group.

The object tier of a partition is seen here through what a stripe relies on: the published groups,
the latest checkpoint and the next block identifier.  An attempt to publish a group completes, fails
with nothing published, or fails after the new root was selected, as object-store and warm-cache
operations come before and after that point.

What a pack decodes to is a parameter, and so is the digest of a payload.  `ι` is the type of the
query index embedded in a frame.  Records of the hot index, which the sink does not use for packs,
are left out.
-/

namespace ShardTelemetry.Sink

open Tier (ObjectTierConfig TierBlockEntry TierCheckpoint TierGroupSource Digest)

/-- One compressed frame of an append with its query index; also `TierIngestFrameSource`. -/
structure IndexedIngestFrame (ι : Type) where
  frameId : Nat
  cohort : Nat
  recordCount : Nat
  structuralBytes : Nat
  minTimestampUnixNanos : Nat
  maxTimestampUnixNanos : Nat
  compressed : List UInt8
  index : ι
  deriving DecidableEq

/-- What is written to the object tier of an append. -/
structure TierIngestAppendSource (ι : Type) where
  tenant : String
  firstOffset : Nat
  lastOffset : Nat
  recordCount : Nat
  frames : List (IndexedIngestFrame ι)
  deriving DecidableEq

/-- A resident append. -/
structure IndexedFrameAppend (ι : Type) where
  tenant : String
  firstOffset : Nat
  lastOffset : Nat
  recordCount : Nat
  frames : List (IndexedIngestFrame ι)
  /-- The checkpoint its transaction leads to. -/
  nextCheckpoint : Option DurableSinkCheckpoint
  deriving DecidableEq

def IndexedFrameAppend.source {ι : Type} (self : IndexedFrameAppend ι) : TierIngestAppendSource ι :=
  ⟨self.tenant, self.firstOffset, self.lastOffset, self.recordCount, self.frames⟩

structure IndexedFramePartition (ι : Type) where
  appends : List (IndexedFrameAppend ι)
  indexedThrough : Option Nat

/-- A group in the catalog of a partition, with the appends its artifacts hold. -/
structure PublishedGroup (ι : Type) where
  groupSequence : Nat
  checkpoint : TierCheckpoint
  blocks : List TierBlockEntry
  appends : List (TierIngestAppendSource ι)
  deriving DecidableEq

/-- The object tier of one partition, as a stripe sees it. -/
structure PartitionTier (ι : Type) where
  /-- Oldest first. -/
  groups : List (PublishedGroup ι)
  latestCheckpoint : Option TierCheckpoint
  /-- First block identifier not used by any published group. -/
  nextBlockId : Nat
  deriving DecidableEq

/-- How an attempt to publish a group ends, if the catalog accepts the group. -/
inductive Attempt where
  | completes
  | failsBefore (error : TelemetryError)
  | failsAfter (error : TelemetryError)
  deriving DecidableEq

structure StripeTierState (ι : Type) where
  config : ObjectTierConfig
  /-- The attached partitions, in the order the stripe visits them. -/
  partitions : List TopicPartition
  tiers : TopicPartition → PartitionTier ι

structure LogStripe (ι : Type) where
  nextFrameId : Nat
  indexedFramePartitions : TopicPartition → IndexedFramePartition ι
  tier : Option (StripeTierState ι)

variable {ι : Type}

/-! ## Indexing -/

/-- Give each frame the next identifier; the identifiers used stay used when they run out. -/
def assignFrameIds : List (IndexedIngestFrame ι) → Nat →
    TelemetryResult (List (IndexedIngestFrame ι)) × Nat
  | [], nextFrameId => (.ok [], nextFrameId)
  | frame :: rest, nextFrameId =>
    match checkedAdd nextFrameId 1 with
    | none => (.error .recordTooLarge, nextFrameId)
    | some next =>
      let (frames, last) := assignFrameIds rest next
      (frames.map ({ frame with frameId := nextFrameId } :: ·), last)

/-- Everything `apply_checkpointed_ingest_pack` is told about a pack. -/
structure PackAppend where
  tenant : String
  topicPartition : TopicPartition
  firstOffset : Nat
  recordCount : Nat
  payload : List UInt8
  transientContext : Option (List UInt8)
  payloadAlreadyValidated : Bool
  expected : DurableSinkCheckpoint
  next : DurableSinkCheckpoint

/-- What the frames of a pack decode to: `decode_indexed_ingest_frames`, or the variant that skips
the checksums of a pack already validated. -/
structure PackDecoder (ι : Type) where
  frames : (payloadAlreadyValidated : Bool) → (payload : List UInt8) →
    (transientContext : Option (List UInt8)) → (recordCount : Nat) →
    TelemetryResult (List (IndexedIngestFrame ι))

def LogStripe.indexedThrough (stripe : LogStripe ι) (partition : TopicPartition) : Option Nat :=
  (stripe.indexedFramePartitions partition).indexedThrough

/-- Make an append resident and move the watermark of its partition. -/
def LogStripe.install (stripe : LogStripe ι) (partition : TopicPartition)
    (append : IndexedFrameAppend ι) (nextFrameId : Nat) : LogStripe ι :=
  { stripe with
    nextFrameId
    indexedFramePartitions := Function.update stripe.indexedFramePartitions partition
      ⟨(stripe.indexedFramePartitions partition).appends ++ [append], some append.lastOffset⟩ }

/-- What a pack below the watermark of its partition leads to: a replay of what is indexed is
accepted, an overlap is refused. -/
def checkWatermark (partition : TopicPartition) (firstOffset lastOffset : Nat) :
    Option Nat → TelemetryResult Bool
  | none => .ok false
  | some previous =>
    if firstOffset ≤ previous then
      if lastOffset ≤ previous then .ok true
      else do
        let expected ← okOr (.offsetExhausted partition) (checkedAdd previous 1)
        .error (.offsetOutOfOrder partition expected firstOffset)
    else .ok false

def LogStripe.applyCheckpointedIngestPack (decoder : PackDecoder ι) (pack : PackAppend)
    (stripe : LogStripe ι) : TelemetryResult Unit × LogStripe ι :=
  let partition := pack.topicPartition
  let checked : TelemetryResult (Nat × Bool) := do
    ensure (pack.expected.topicPartition = partition && pack.next.topicPartition = partition)
      (.corruptSinkJournal "indexed append checkpoints refer to another partition")
    ensure (!pack.tenant.isEmpty && pack.recordCount ≠ 0)
      (.invalidConfig "compressed ingest append must have a tenant and contain records")
    let lastOffset ← okOr (.offsetExhausted partition)
      (checkedAdd pack.firstOffset (pack.recordCount - 1))
    let replayed ← checkWatermark partition pack.firstOffset lastOffset
      (stripe.indexedThrough partition)
    return (lastOffset, replayed)
  match checked with
  | .error error => (.error error, stripe)
  | .ok (_, true) => (.ok (), stripe)
  | .ok (lastOffset, false) =>
    match decoder.frames pack.payloadAlreadyValidated pack.payload pack.transientContext
        pack.recordCount with
    | .error error => (.error error, stripe)
    | .ok frames =>
      match assignFrameIds frames stripe.nextFrameId with
      | (.error error, nextFrameId) => (.error error, { stripe with nextFrameId })
      | (.ok frames, nextFrameId) =>
        (.ok (), stripe.install partition
          { tenant := pack.tenant, firstOffset := pack.firstOffset, lastOffset,
            recordCount := pack.recordCount, frames, nextCheckpoint := some pack.next }
          nextFrameId)

/-! ## Selecting and writing a group -/

/-- The appends selected so far, with their payload bytes and frames. -/
structure Selection where
  appends : Nat
  payloadBytes : Nat
  frames : Nat
  deriving DecidableEq

def IndexedFrameAppend.payloadBytes (self : IndexedFrameAppend ι) : Nat :=
  (self.frames.map (·.compressed.length)).sum

/-- The selection loop over the resident appends. -/
def selectAppends (config : ObjectTierConfig) : List (IndexedFrameAppend ι) → Selection →
    TelemetryResult Selection
  | [], selected => .ok selected
  | append :: rest, selected =>
    if append.nextCheckpoint.isNone then .ok selected
    else do
      ensure (append.payloadBytes < u64Bound) .recordTooLarge
      ensure (append.payloadBytes ≤ config.maxGroupPayloadBytes &&
          append.frames.length ≤ config.maxBlocksPerGroup)
        (.objectStore "one durable append exceeds the object-tier group limit")
      if 0 < selected.appends ∧
          (config.maxGroupPayloadBytes < saturatingAdd selected.payloadBytes append.payloadBytes ∨
            config.maxBlocksPerGroup < selected.frames + append.frames.length) then
        return selected
      let payloadBytes ← okOr .recordTooLarge (checkedAdd selected.payloadBytes append.payloadBytes)
      let selected :
        Selection := ⟨selected.appends + 1, payloadBytes, selected.frames + append.frames.length⟩
      if config.targetGroupPayloadBytes ≤ selected.payloadBytes then return selected
      selectAppends config rest selected

/-- The catalog entry of a frame written at an offset of the payload pack. -/
def ingestBlock (checksum : List UInt8 → Digest) (append : TierIngestAppendSource ι)
    (frame : IndexedIngestFrame ι) (payloadOffset : Nat) : TierBlockEntry where
  blockId := frame.frameId
  sourceCompressionCohort := frame.cohort
  placementId := frame.cohort
  dictionaryId := none
  compressionCodec := "zstd"
  compressionLevel := 1
  firstOffset := append.firstOffset
  lastOffset := append.lastOffset
  recordCount := frame.recordCount
  sourceBytes := frame.structuralBytes
  structuralBytes := frame.structuralBytes
  storedBytes := frame.compressed.length
  minTimestampUnixNanos := frame.minTimestampUnixNanos
  maxTimestampUnixNanos := frame.maxTimestampUnixNanos
  compressionTemperature := 0
  compressionShapeHash := frame.cohort
  compressionTemperatureVarianceQ8 := 0
  maxCompressionTemperatureDeviation := 0
  payloadOffset
  payloadBytes := frame.compressed.length
  payloadChecksum := checksum frame.compressed
  minSignalIdentity := none
  maxSignalIdentity := none
  correlationFilter := none

/-- The frames of a group, each with the append it belongs to. -/
def groupFrames (appends : List (TierIngestAppendSource ι)) :
    List (TierIngestAppendSource ι × IndexedIngestFrame ι) :=
  appends.flatMap fun append => append.frames.map (append, ·)

/-- The loops of `write_tier_ingest_group`: the blocks of the group.  The bounds of an append are
checked before its frames; checking them again before each of them changes nothing. -/
def writeFrames (checksum : List UInt8 → Digest) :
    List (TierIngestAppendSource ι × IndexedIngestFrame ι) → Option Nat → Nat →
      TelemetryResult (List TierBlockEntry)
  | [], _, _ => .ok []
  | (append, frame) :: rest, previousFrameId, payloadOffset => do
    ensure (!append.tenant.isEmpty && append.firstOffset ≤ append.lastOffset &&
      append.recordCount ≠ 0)
      (.corruptTier "ingest tier append bounds are invalid")
    ensure (previousFrameId.all (· < frame.frameId) && frame.recordCount ≠ 0 &&
        !frame.compressed.isEmpty && frame.minTimestampUnixNanos ≤ frame.maxTimestampUnixNanos)
      (.corruptTier "ingest tier frame metadata is invalid")
    let nextOffset ← okOr .recordTooLarge (checkedAdd payloadOffset frame.compressed.length)
    let blocks ← writeFrames checksum rest (some frame.frameId) nextOffset
    return ingestBlock checksum append frame payloadOffset :: blocks

/-- What `write_tier_ingest_group` checks and returns.  Writing the two files, and the bound on the
encoded query index, belong to the attempt. -/
def writeTierIngestGroup (checksum : List UInt8 → Digest)
    (appends : List (TierIngestAppendSource ι)) : TelemetryResult (List TierBlockEntry) := do
  ensure (!appends.isEmpty && appends.all fun append => !append.frames.isEmpty)
    (.objectStore "an ingest tier group requires nonempty appends and frames")
  writeFrames checksum (groupFrames appends) none 0

/-! ## Publishing -/

/-- The group as it is handed to `publish_group`. -/
def groupSource (partition : TopicPartition) (groupSequence : Nat) (checkpoint : TierCheckpoint)
    (blocks : List TierBlockEntry) : TierGroupSource :=
  let topic := partition.topicId
  let id := partition.partitionId
  let directory := s!"topic-{topic}-partition-{id}/group-{groupSequence}"
  { groupSequence, checkpoint, blocks
    artifacts :=
      [⟨.payloadPack, "payload.pack", directory ++ "/payload.pack"⟩,
        ⟨.queryIndex, "query-index.sltqix", directory ++ "/query-index.sltqix"⟩] }

/-- What the last published group says about the next one. -/
def checkFollows (source : TierGroupSource) : Option (PublishedGroup ι) → TelemetryResult Unit
  | none => .ok ()
  | some last => do
    ensure (source.groupSequence ≠ last.groupSequence)
      (.corruptTier "group sequence was retried with different contents")
    ensure (last.groupSequence < source.groupSequence)
      (.objectStore "group sequences must be published in increasing order")
    ensure (source.checkpoint.covers last.checkpoint)
      (.objectStore "group checkpoints must advance monotonically")

/-- The checks `publish_group` makes on a group of this catalog, in their order, and the first block
identifier left unused. -/
def PartitionTier.checkGroup (config : ObjectTierConfig) (tier : PartitionTier ι)
    (source : TierGroupSource) : TelemetryResult Nat := do
  Tier.validateSource source
  ensure (source.blocks.length ≤ config.maxBlocksPerGroup &&
      source.blocks.all fun block => block.lastOffset < source.checkpoint.nextOffset)
    (.corruptTier "group manifest identity or cardinality is invalid")
  let payloadBytes := (source.blocks.map (·.payloadBytes)).sum
  let limit := config.maxGroupPayloadBytes
  ensure (payloadBytes ≤ limit)
    (.corruptTier s!"group payload is {payloadBytes} bytes, exceeding limit {limit}")
  Tier.validateBlocks payloadBytes none 0 source.blocks
  checkFollows source tier.groups.getLast?
  ensure (tier.nextBlockId ≤ (source.blocks.head?.map (·.blockId)).getD 0)
    (.objectStore "group block identifiers overlap an older group")
  okOr (.objectStore "block identifier exhausted")
    (checkedAdd ((source.blocks.getLast?.map (·.blockId)).getD 0) 1)

/-- The catalog once the new root is selected. -/
def PartitionTier.publish (tier : PartitionTier ι) (source : TierGroupSource)
    (appends : List (TierIngestAppendSource ι)) (nextBlockId : Nat) : PartitionTier ι where
  groups := tier.groups ++ [⟨source.groupSequence, source.checkpoint, source.blocks, appends⟩]
  latestCheckpoint := some source.checkpoint
  nextBlockId

/-- Publish a group and warm the local caches with it. -/
def PartitionTier.publishGroup (config : ObjectTierConfig) (attempt : Attempt)
    (source : TierGroupSource) (appends : List (TierIngestAppendSource ι))
    (tier : PartitionTier ι) : TelemetryResult Unit × PartitionTier ι :=
  match tier.checkGroup config source with
  | .error error => (.error error, tier)
  | .ok nextBlockId =>
    match attempt with
    | .completes => (.ok (), tier.publish source appends nextBlockId)
    | .failsBefore error => (.error error, tier)
    | .failsAfter error => (.error error, tier.publish source appends nextBlockId)

/-- How the attempts of one pass end, by partition and group sequence. -/
abbrev Attempts := TopicPartition → Nat → Attempt

def LogStripe.setTier (stripe : LogStripe ι) (state : StripeTierState ι)
    (partition : TopicPartition) (tier : PartitionTier ι) : LogStripe ι :=
  { stripe with
    tier := some { state with tiers := Function.update state.tiers partition tier } }

/-- Drop the published appends of a partition. -/
def LogStripe.drain (stripe : LogStripe ι) (partition : TopicPartition) (count : Nat) :
    LogStripe ι :=
  let resident := stripe.indexedFramePartitions partition
  { stripe with
    indexedFramePartitions := Function.update stripe.indexedFramePartitions partition
      { resident with appends := resident.appends.drop count } }

/-- The sequence number of the next group of a catalog. -/
def PartitionTier.nextGroupSequence (tier : PartitionTier ι) : Nat :=
  match tier.groups.getLast? with
  | none => 0
  | some last => saturatingAdd last.groupSequence 1

section Offload

variable (checksum : List UInt8 → Digest)

/-- Publish the first appends of a partition, as many as were selected. -/
def LogStripe.offloadSelected (attempts : Attempts) (partition : TopicPartition) (count : Nat)
    (checkpoint : DurableSinkCheckpoint) (state : StripeTierState ι) (stripe : LogStripe ι) :
    TelemetryResult Bool × LogStripe ι :=
  let sources := ((stripe.indexedFramePartitions partition).appends.take count).map (·.source)
  let tier := state.tiers partition
  match writeTierIngestGroup checksum sources with
  | .error error => (.error error, stripe)
  | .ok blocks =>
    let source := groupSource partition tier.nextGroupSequence
      ⟨checkpoint.nextPlacementSequence, checkpoint.nextOffset⟩ blocks
    match tier.publishGroup state.config (attempts partition tier.nextGroupSequence)
        source sources with
    | (.error error, tier) => (.error error, stripe.setTier state partition tier)
    | (.ok (), tier) => (.ok true, (stripe.setTier state partition tier).drain partition count)

def LogStripe.offloadOneIndexedGroup (attempts : Attempts) (partition : TopicPartition)
    (force : Bool) (stripe : LogStripe ι) : TelemetryResult Bool × LogStripe ι :=
  match stripe.tier with
  | none => (.error (.invalidConfig "object tier is not attached"), stripe)
  | some state =>
    let appends := (stripe.indexedFramePartitions partition).appends
    match selectAppends state.config appends ⟨0, 0, 0⟩ with
    | .error error => (.error error, stripe)
    | .ok selected =>
      if selected.appends = 0 ∨
          (force = false ∧ selected.payloadBytes < state.config.targetGroupPayloadBytes) then
        (.ok false, stripe)
      else
        match appends[selected.appends - 1]?.bind (·.nextCheckpoint) with
        | none => (.ok false, stripe) -- a selected append has a checkpoint
        | some checkpoint =>
          stripe.offloadSelected checksum attempts partition selected.appends checkpoint state

/-- Offload groups of one partition until none is due.  Every group takes an append, so there are at
most as many rounds as appends. -/
def LogStripe.offloadPartition (attempts : Attempts) (partition : TopicPartition) (force : Bool) :
    Nat → LogStripe ι → TelemetryResult Nat × LogStripe ι
  | 0, stripe => (.ok 0, stripe)
  | rounds + 1, stripe =>
    match stripe.offloadOneIndexedGroup checksum attempts partition force with
    | (.error error, stripe) => (.error error, stripe)
    | (.ok false, stripe) => (.ok 0, stripe)
    | (.ok true, stripe) =>
      let (published, stripe) := offloadPartition attempts partition force rounds stripe
      (published.map (saturatingAdd 1), stripe)

/-- The loop over the attached partitions. -/
def LogStripe.offloadPartitions (attempts : Attempts) (force : Bool) :
    List TopicPartition → LogStripe ι → TelemetryResult Nat × LogStripe ι
  | [], stripe => (.ok 0, stripe)
  | partition :: rest, stripe =>
    match stripe.offloadPartition checksum attempts partition force
        ((stripe.indexedFramePartitions partition).appends.length + 1) with
    | (.error error, stripe) => (.error error, stripe)
    | (.ok count, stripe) =>
      let (published, stripe) := offloadPartitions attempts force rest stripe
      (published.map (saturatingAdd count), stripe)

def LogStripe.offloadIndexedGroups (attempts : Attempts) (force : Bool) (stripe : LogStripe ι) :
    TelemetryResult Nat × LogStripe ι :=
  match stripe.tier with
  | none => (.ok 0, stripe)
  | some state => stripe.offloadPartitions checksum attempts force state.partitions

end Offload

/-! ## Queries -/

end ShardTelemetry.Sink
