import Mathlib.Data.List.AList
import ShardTelemetry.Query.LogQuery

/-!
# Active and sealed blocks

Records wait in active blocks until a block reaches its target size.  Then the block is taken out of
the map of active blocks and collated: its records are divided into groups, each group goes to the
active block of its placement, and what is full is sealed or collated again.

Scores over fingerprints of the messages decide how a block is divided and where a group goes.
Nothing here depends on them, so they are given from outside (`Scoring`), and so are the outcomes of
what can fail: finding a dictionary, and encoding and compressing a block (`Environment`).  Both may
differ from one call to the next, which is what the clock is for.
-/

namespace ShardTelemetry.Stripe

open Query

structure DurableLog where
  streamShardId : Nat
  topicPartition : TopicPartition
  offset : Nat
  timestampUnixNanos : Nat
  message : Text
  fields : List MetadataField
  /-- The typed parts (body, attributes, resource, scope, severity, identifiers), encoded.  They are
  only compared. -/
  typed : List UInt8
  compressionCohort : Nat
  deriving DecidableEq

instance : StructuralRecordView DurableLog where
  offset := DurableLog.offset
  timestampUnixNanos := DurableLog.timestampUnixNanos
  message := DurableLog.message
  fields := DurableLog.fields

structure PendingRecord where
  record : DurableLog
  sourceBytes : Nat
  deriving DecidableEq

structure ActiveBlockKey where
  topicPartition : TopicPartition
  sourceCompressionCohort : Nat
  placementId : Nat
  dictionaryId : Option Nat
  deriving DecidableEq

structure ActiveBlock where
  sourceBytes : Nat
  rebalancePasses : Nat
  records : List PendingRecord
  deriving DecidableEq

/-- A sealed block, by the records its payload encodes. -/
structure SealedBlock where
  key : ActiveBlockKey
  records : List PendingRecord
  deriving DecidableEq

def maxRebalancePasses : Nat := 3

namespace ActiveBlock

def new (record : PendingRecord) : ActiveBlock := ⟨record.sourceBytes, 0, [record]⟩

def append (block : ActiveBlock) (record : PendingRecord) : ActiveBlock :=
  { block with
    sourceBytes := saturatingAdd block.sourceBytes record.sourceBytes
    records := block.records ++ [record] }

/-- The block of some records, in the order of their offsets. -/
def fromRecords (records : List PendingRecord) (rebalancePasses : Nat) : ActiveBlock where
  sourceBytes := (records.insertionSort (·.record.offset ≤ ·.record.offset)).foldl
    (fun total record => saturatingAdd total record.sourceBytes) 0
  rebalancePasses
  records := records.insertionSort (·.record.offset ≤ ·.record.offset)

def appendBlock (block other : ActiveBlock) : ActiveBlock where
  sourceBytes := saturatingAdd block.sourceBytes other.sourceBytes
  rebalancePasses := max block.rebalancePasses other.rebalancePasses
  records := block.records.merge other.records fun left right =>
    left.record.offset ≤ right.record.offset

end ActiveBlock

/-! ## Collation -/

/-- The settings that collation reads; `validate` refuses others. -/
structure CompressionLocalityConfig where
  enabled : Bool
  maxSplitDepth : Nat
  minSplitRecords : Nat
  two_le_minSplitRecords : 2 ≤ minSplitRecords

/-- What the scores of one block decide about groups of its records, given by their indices. -/
structure Scoring where
  /-- Which records go left, if the group is to be split. -/
  split : List Nat → Option (Nat → Bool)
  /-- The placement of a group that is not split. -/
  placement : List Nat → Nat
  /-- Whether the variance of a group is low. -/
  stable : List Nat → Bool

/-- The final assignment of one group. -/
structure CompressionBlockAssignment where
  placementId : Nat
  stable : Bool
  recordIndices : List Nat

namespace Scoring

/-- `split_membership`; both parts need a minimum of records. -/
def splitMembership (scoring : Scoring) (config : CompressionLocalityConfig)
    (membership : List Nat) : Option (List Nat × List Nat) :=
  match scoring.split membership with
  | none => none
  | some goesLeft =>
    let left := membership.filter goesLeft
    let right := membership.filter fun index => !goesLeft index
    if left.length < config.minSplitRecords ∨ right.length < config.minSplitRecords then none
    else some (left, right)

/-- The groups that are left when no group is split any more, in the order of the queue: one depth
after the other. -/
def leaves (scoring : Scoring) (config : CompressionLocalityConfig) :
    Nat → List (List Nat) → List (List Nat)
  | 0, blocks => blocks
  | depth + 1, blocks =>
    (blocks.filter fun block => (scoring.splitMembership config block).isNone) ++
      scoring.leaves config depth (blocks.flatMap fun block =>
        match scoring.splitMembership config block with
        | some (left, right) => [left, right]
        | none => [])

def collate (scoring : Scoring) (config : CompressionLocalityConfig) (count : Nat) :
    List CompressionBlockAssignment :=
  if count = 0 then []
  else
    ((scoring.leaves config config.maxSplitDepth [List.range count]).insertionSort
      fun left right => left.headD 0 ≤ right.headD 0).map fun membership =>
        ⟨scoring.placement membership, scoring.stable membership, membership⟩

end Scoring

/-! ## Rebalancing -/

/-- What one call of the stripe finds around it. -/
structure Environment where
  /-- The error of refreshing the dictionaries, if that fails. -/
  refresh : Option TelemetryError
  /-- The placement a record gets at first, and `resolve_dictionary` of it. -/
  tentative : Nat → DurableLog → Nat × TelemetryResult (Option Nat)
  /-- `resolve_dictionary` of a placement, while a block is rebalanced. -/
  resolveDictionary : Nat → Nat → TelemetryResult (Option Nat)
  /-- The scores of a block. -/
  scoring : Nat → ActiveBlockKey → List PendingRecord → Scoring
  /-- The error of encoding and compressing a block, if they fail. -/
  failure : Nat → ActiveBlockKey → List PendingRecord → Option TelemetryError
  /-- The order in which a hash map gives its blocks. -/
  drain : List (ActiveBlockKey × ActiveBlock) → List (ActiveBlockKey × ActiveBlock)
  drain_perm : ∀ blocks, (drain blocks).Perm blocks

structure StripeConfig where
  targetBlockBytes : Nat
  compressionLocality : CompressionLocalityConfig

/-- What sealing reads and writes. -/
structure BlockState where
  activeBlocks : AList fun _ : ActiveBlockKey => ActiveBlock
  catalog : List SealedBlock
  /-- The calls that were made to the environment. -/
  clock : Nat

namespace BlockState

def tick (state : BlockState) : BlockState := { state with clock := state.clock + 1 }

def stageActiveBlock (env : Environment) (state : BlockState) (key : ActiveBlockKey)
    (active : ActiveBlock) : TelemetryResult SealedBlock × BlockState :=
  match env.failure state.clock key active.records with
  | some error => (.error error, state.tick)
  | none =>
    let block : SealedBlock := ⟨key, active.records⟩
    (.ok block, { state.tick with catalog := state.catalog ++ [block] })

/-- What the loop over the assignments of a block has sealed and pushed. -/
structure Progress where
  sealed : List SealedBlock
  /-- The blocks that go back on the stack, the last one on top. -/
  pushed : List (ActiveBlockKey × ActiveBlock)

/-- Seals the group of an assignment. -/
def sealGroup (env : Environment) (targetKey : ActiveBlockKey) (group : ActiveBlock)
    (progress : Progress) (state : BlockState) : TelemetryResult Progress × BlockState :=
  match state.stageActiveBlock env targetKey group with
  | (.ok block, state) => (.ok { progress with sealed := progress.sealed ++ [block] }, state)
  | (.error error, state) => (.error error, state)

/-- One round of the loop: the group of an assignment is sealed, becomes active, or goes back on the
stack. -/
def placeGroup (env : Environment) (config : StripeConfig) (forceSeal : Bool)
    (assignmentCount : Nat) (homeKey : ActiveBlockKey) (assignment : CompressionBlockAssignment)
    (targetKey : ActiveBlockKey) (group : ActiveBlock) (progress : Progress) (state : BlockState) :
    TelemetryResult Progress × BlockState :=
  if forceSeal then sealGroup env targetKey group progress state
  else
    let existing := state.activeBlocks.lookup targetKey
    let state := { state with activeBlocks := state.activeBlocks.erase targetKey }
    let group := existing.elim group fun existing => existing.appendBlock group
    if group.sourceBytes < config.targetBlockBytes then
      (.ok progress, { state with activeBlocks := state.activeBlocks.insert targetKey group })
    else if (existing.isNone && assignmentCount = 1 &&
        targetKey.placementId = homeKey.placementId && assignment.stable) ||
        maxRebalancePasses ≤ group.rebalancePasses then
      sealGroup env targetKey group progress state
    else (.ok { progress with pushed := progress.pushed ++ [(targetKey, group)] }, state)

/-- The key of the active block for a placement. -/
def targetKey (env : Environment) (homeKey : ActiveBlockKey) (placementId : Nat)
    (state : BlockState) : TelemetryResult ActiveBlockKey × BlockState :=
  if placementId = homeKey.placementId then (.ok homeKey, state)
  else
    match env.resolveDictionary state.clock placementId with
    | .error error => (.error error, state.tick)
    | .ok dictionaryId => (.ok { homeKey with placementId, dictionaryId }, state.tick)

/-- The loop over the assignments of a block. -/
def placeGroups (env : Environment) (config : StripeConfig) (forceSeal : Bool)
    (assignmentCount : Nat)
    (homeKey : ActiveBlockKey) (nextPass : Nat) (records : List PendingRecord) :
    List CompressionBlockAssignment → Progress → BlockState →
      TelemetryResult Progress × BlockState
  | [], progress, state => (.ok progress, state)
  | assignment :: assignments, progress, state =>
    match state.targetKey env homeKey assignment.placementId with
    | (.error error, state) => (.error error, state)
    | (.ok targetKey, state) =>
      let group :=
        ActiveBlock.fromRecords (assignment.recordIndices.filterMap (records[·]?)) nextPass
      match placeGroup env config forceSeal assignmentCount homeKey assignment targetKey group
          progress state with
      | (.error error, state) => (.error error, state)
      | (.ok progress, state) =>
        placeGroups env config forceSeal assignmentCount homeKey nextPass records assignments
          progress state

/-- Takes blocks from the stack until it is empty or something fails. -/
def popAll (rebalance : ActiveBlockKey × ActiveBlock → List SealedBlock → BlockState →
    TelemetryResult (List SealedBlock) × BlockState) :
    List (ActiveBlockKey × ActiveBlock) → List SealedBlock → BlockState →
      TelemetryResult (List SealedBlock) × BlockState
  | [], sealed, state => (.ok sealed, state)
  | block :: blocks, sealed, state =>
    match rebalance block sealed state with
    | (.error error, state) => (.error error, state)
    | (.ok sealed, state) => popAll rebalance blocks sealed state

/-- The block on top of the stack, and all that it pushes, last first.  Each round raises the passes
of a block, and a block with `maxRebalancePasses` is not pushed, so that the depth is bounded. -/
def rebalance (env : Environment) (config : StripeConfig) (forceSeal : Bool) :
    Nat → ActiveBlockKey × ActiveBlock → List SealedBlock → BlockState →
      TelemetryResult (List SealedBlock) × BlockState
  | 0, _, sealed, state => (.ok sealed, state)
  | depth + 1, (homeKey, active), sealed, state =>
    let assignments := (env.scoring state.clock homeKey active.records).collate
      config.compressionLocality active.records.length
    match placeGroups env config forceSeal assignments.length homeKey (active.rebalancePasses + 1)
        active.records assignments ⟨sealed, []⟩ state.tick with
    | (.error error, state) => (.error error, state)
    | (.ok progress, state) =>
      popAll (rebalance env config forceSeal depth) progress.pushed.reverse progress.sealed state

def rebalanceBlock (env : Environment) (config : StripeConfig) (state : BlockState)
    (key : ActiveBlockKey) (block : ActiveBlock) (forceSeal : Bool) :
    TelemetryResult (List SealedBlock) × BlockState :=
  if !config.compressionLocality.enabled then
    match state.stageActiveBlock env key block with
    | (.error error, state) => (.error error, state)
    | (.ok block, state) => (.ok [block], state)
  else rebalance env config forceSeal (maxRebalancePasses + 1) (key, block) [] state

/-- A new record joins the active block of its key; a block that is full then is rebalanced. -/
def appendActive (env : Environment) (config : StripeConfig) (state : BlockState)
    (key : ActiveBlockKey) (pending : PendingRecord) :
    TelemetryResult (List SealedBlock) × BlockState :=
  let existing := state.activeBlocks.lookup key
  let nextSourceBytes := existing.elim pending.sourceBytes fun active =>
    saturatingAdd active.sourceBytes pending.sourceBytes
  let active := existing.elim (ActiveBlock.new pending) fun active => active.append pending
  if config.targetBlockBytes ≤ nextSourceBytes then
    rebalanceBlock env config { state with activeBlocks := state.activeBlocks.erase key } key active
      false
  else (.ok [], { state with activeBlocks := state.activeBlocks.insert key active })

/-- The loop of `seal_active_blocks` over the blocks it took. -/
def sealBlocks (env : Environment) (config : StripeConfig) :
    List (ActiveBlockKey × ActiveBlock) → List SealedBlock → BlockState →
      TelemetryResult (List SealedBlock) × BlockState
  | [], sealed, state => (.ok sealed, state)
  | (key, active) :: blocks, sealed, state =>
    match state.rebalanceBlock env config key active true with
    | (.error error, state) => (.error error, state)
    | (.ok more, state) => sealBlocks env config blocks (sealed ++ more) state

def sealActiveBlocks (env : Environment) (config : StripeConfig) (state : BlockState) :
    TelemetryResult (List SealedBlock) × BlockState :=
  sealBlocks env config (env.drain (state.activeBlocks.entries.map fun entry => (entry.1, entry.2)))
    []
    { state with activeBlocks := ∅ }

end BlockState

end ShardTelemetry.Stripe
