import ShardTelemetry.Error
import Mathlib.Order.Nat

/-!
# Checkpoints of the durable sink

The stream engine delivers the appends of a partition in transactions, each from one checkpoint of
the partition to a later one.  The sink accepts a transaction whose expected checkpoint continues
the one it holds: at the same placement sequence, and possibly at a later offset, because another
lane of the partition may have taken the offsets in between.

The journal, the object tier and the running sink hold a checkpoint for each partition.  `Chain` and
`Replays` describe how the first two determine the third at start-up.
-/

namespace ShardTelemetry.Sink

open List

/-- Position of the sink in the stream of one partition. -/
structure DurableSinkCheckpoint where
  topicPartition : TopicPartition
  nextPlacementSequence : Nat
  nextOffset : Nat
  deriving DecidableEq

namespace DurableSinkCheckpoint

/-- The fields fit the engine's integer types. -/
def InRange (self : DurableSinkCheckpoint) : Prop :=
  self.topicPartition.topicId < 2 ^ 128 ∧ self.topicPartition.partitionId < 2 ^ 32 ∧
    self.nextPlacementSequence < 2 ^ 64 ∧ self.nextOffset < 2 ^ 64

instance (self : DurableSinkCheckpoint) : Decidable self.InRange :=
  inferInstanceAs (Decidable (_ ∧ _))

/-- A position at or after another one of the same partition. -/
def Le (self other : DurableSinkCheckpoint) : Prop :=
  self.nextPlacementSequence ≤ other.nextPlacementSequence ∧ self.nextOffset ≤ other.nextOffset

theorem Le.refl (self : DurableSinkCheckpoint) : self.Le self := ⟨le_rfl, le_rfl⟩

theorem Le.trans {a b c : DurableSinkCheckpoint} (h : a.Le b) (h' : b.Le c) : a.Le c :=
  ⟨h.1.trans h'.1, h.2.trans h'.2⟩

end DurableSinkCheckpoint

/-- The position of a partition before anything was applied, as the stream engine fixes it. -/
class StreamEngine where
  initial : TopicPartition → DurableSinkCheckpoint
  topicPartition_initial (partition : TopicPartition) :
    (initial partition).topicPartition = partition

namespace Sample

/-- Every partition starts at placement 0 and offset 0. -/
scoped instance fromZero : StreamEngine where
  initial partition := ⟨partition, 0, 0⟩
  topicPartition_initial _ := rfl

end Sample

/-- A transaction may continue from `actual` when it expects the same placement sequence and an
offset that is not smaller. -/
def checkpointAllowsLaneGap (actual expected : DurableSinkCheckpoint) : Bool :=
  actual.topicPartition = expected.topicPartition &&
    actual.nextPlacementSequence = expected.nextPlacementSequence &&
    actual.nextOffset ≤ expected.nextOffset

def checkpointCovers (checkpoint candidate : DurableSinkCheckpoint) : Bool :=
  checkpoint.topicPartition = candidate.topicPartition &&
    candidate.nextPlacementSequence ≤ checkpoint.nextPlacementSequence &&
    candidate.nextOffset ≤ checkpoint.nextOffset

@[simp] theorem checkpointAllowsLaneGap_iff : checkpointAllowsLaneGap actual want = true ↔
      actual.topicPartition = want.topicPartition ∧
      actual.nextPlacementSequence = want.nextPlacementSequence ∧
        actual.nextOffset ≤ want.nextOffset := by
  simp [checkpointAllowsLaneGap, and_assoc]

@[simp] theorem checkpointCovers_iff :
    checkpointCovers cp cand = true ↔ cp.topicPartition = cand.topicPartition ∧ cand.Le cp := by
  simp [checkpointCovers, DurableSinkCheckpoint.Le, and_assoc]

/-- A map from partitions to checkpoints. -/
abbrev Checkpoints := TopicPartition → Option DurableSinkCheckpoint

namespace Checkpoints

/-- The checkpoint held for a partition, or the initial one. -/
def actual [StreamEngine] (self : Checkpoints) (partition : TopicPartition) :
    DurableSinkCheckpoint :=
  (self partition).getD (StreamEngine.initial partition)

/-- Record a checkpoint under its own partition. -/
def insert (self : Checkpoints) (checkpoint : DurableSinkCheckpoint) : Checkpoints :=
  Function.update self checkpoint.topicPartition (some checkpoint)

/-- Record several checkpoints in their order. -/
def insertAll (self : Checkpoints) (checkpoints : List DurableSinkCheckpoint) : Checkpoints :=
  checkpoints.foldl insert self

variable {self : Checkpoints}

theorem insert_of_eq (h : cp.topicPartition = part) : self.insert cp part = some cp := by
  subst h
  exact Function.update_self ..

theorem insert_of_ne (h : cp.topicPartition ≠ part) : self.insert cp part = self part :=
  Function.update_of_ne (Ne.symm h) _ _

variable [StreamEngine]

theorem actual_of_some (h : self part = some cp) : self.actual part = cp := by
  rw [actual, h]
  rfl

theorem actual_of_none (h : self part = none) : self.actual part = StreamEngine.initial part := by
  rw [actual, h]
  rfl

theorem actual_insert_of_eq (h : cp.topicPartition = part) : (self.insert cp).actual part = cp :=
  actual_of_some (insert_of_eq h)

theorem actual_insert_of_ne (h : cp.topicPartition ≠ part) :
    (self.insert cp).actual part = self.actual part := by
  rw [actual, insert_of_ne h, ← actual]

end Checkpoints

/-- Merge a checkpoint published to the object tier into those found so far. -/
def mergeRecoveredCheckpoint (checkpoints : Checkpoints) (candidate : DurableSinkCheckpoint) :
    TelemetryResult Checkpoints :=
  match checkpoints candidate.topicPartition with
  | none => .ok (checkpoints.insert candidate)
  | some current =>
    if checkpointCovers current candidate then .ok checkpoints
    else if checkpointCovers candidate current then .ok (checkpoints.insert candidate)
    else .error (.corruptTier "object-tier checkpoints are not monotonically comparable")

/-! ## Transactions -/

/-- Offsets reserved for an append by the engine. -/
structure AppendReservation where
  topicId : Nat
  partitionId : Nat
  firstOffset : Nat
  recordCount : Nat
  deriving DecidableEq

/-- One append made durable by the engine. -/
structure DurableAppend where
  physicalShardId : Nat
  reservation : AppendReservation
  payload : List UInt8
  /-- Index data that accompanies a live append and is not durable. -/
  transientContext : Option (List UInt8)
  deriving DecidableEq

def DurableAppend.topicPartition (self : DurableAppend) : TopicPartition :=
  ⟨self.reservation.topicId, self.reservation.partitionId⟩

/-- A transaction as the engine delivers it: its appends belong to the shard and to one partition,
and it moves the checkpoint of that partition forward. -/
structure DurableTransaction (shardId : Nat) where
  expected : DurableSinkCheckpoint
  appends : List DurableAppend
  next : DurableSinkCheckpoint
  same_partition : next.topicPartition = expected.topicPartition
  owned : ∀ append ∈ appends, append.topicPartition = expected.topicPartition ∧
    append.physicalShardId = shardId
  advances : expected.nextPlacementSequence < next.nextPlacementSequence
  offset_le : expected.nextOffset ≤ next.nextOffset
  expected_inRange : expected.InRange
  next_inRange : next.InRange
  shard_inRange : shardId < 2 ^ 32
  offsets_inRange : ∀ append ∈ appends, append.reservation.firstOffset < 2 ^ 64

structure RecoveredAppend where
  topicPartition : TopicPartition
  firstOffset : Nat
  payload : List UInt8
  deriving DecidableEq

/-- A transaction read back from the journal. -/
structure RecoveredTransaction where
  expected : DurableSinkCheckpoint
  next : DurableSinkCheckpoint
  appends : List RecoveredAppend
  deriving DecidableEq

def RecoveredTransaction.partition (self : RecoveredTransaction) : TopicPartition :=
  self.expected.topicPartition

/-- What the journal keeps of a transaction: neither record counts nor transient contexts. -/
def DurableTransaction.recovered {shardId : Nat} (self : DurableTransaction shardId) :
    RecoveredTransaction where
  expected := self.expected
  next := self.next
  appends := self.appends.map fun append =>
    ⟨self.expected.topicPartition, append.reservation.firstOffset, append.payload⟩

/-- The transaction stays within its partition and moves its checkpoint forward. -/
structure RecoveredTransaction.Advances (transaction : RecoveredTransaction) : Prop where
  same_partition : transaction.next.topicPartition = transaction.partition
  sequence_lt :
    transaction.expected.nextPlacementSequence < transaction.next.nextPlacementSequence
  offset_le : transaction.expected.nextOffset ≤ transaction.next.nextOffset

theorem DurableTransaction.recovered_advances (self : DurableTransaction sid) :
    self.recovered.Advances :=
  ⟨self.same_partition, self.advances, self.offset_le⟩

/-! ## Chains of one partition -/

/-- The transactions continue each other from the first checkpoint to the last. -/
inductive Chain : DurableSinkCheckpoint → List RecoveredTransaction → DurableSinkCheckpoint → Prop
  | /-- Nothing happened. -/
    nil (checkpoint : DurableSinkCheckpoint) : Chain checkpoint [] checkpoint
  | /-- One transaction continues the checkpoint, the others continue it. -/
    cons {start last : DurableSinkCheckpoint} {transaction : RecoveredTransaction}
      {rest : List RecoveredTransaction} :
      checkpointAllowsLaneGap start transaction.expected = true → transaction.Advances →
      Chain transaction.next rest last → Chain start (transaction :: rest) last

/-- How start-up replays the transactions of one partition: those that the checkpoint covers are
skipped, each of the others continues it. -/
inductive Replays : DurableSinkCheckpoint → List RecoveredTransaction → DurableSinkCheckpoint → Prop
  | nil (checkpoint : DurableSinkCheckpoint) : Replays checkpoint [] checkpoint
  | skip {start last : DurableSinkCheckpoint} {transaction : RecoveredTransaction}
      {rest : List RecoveredTransaction} :
      checkpointCovers start transaction.next = true →
      Replays start rest last → Replays start (transaction :: rest) last
  | apply {start last : DurableSinkCheckpoint} {transaction : RecoveredTransaction}
      {rest : List RecoveredTransaction} :
      checkpointCovers start transaction.next = false →
      checkpointAllowsLaneGap start transaction.expected = true →
      Replays transaction.next rest last → Replays start (transaction :: rest) last

/-- The transactions of a journal, of any partitions, each continuing what the ones before it
left. -/
def Continues [StreamEngine] : Checkpoints → List RecoveredTransaction → Prop
  | _, [] => True
  | checkpoints, transaction :: rest =>
    checkpointAllowsLaneGap (checkpoints.actual transaction.partition) transaction.expected = true ∧
      transaction.Advances ∧ Continues (checkpoints.insert transaction.next) rest

namespace Chain

variable {txs rest : List RecoveredTransaction}

/-- Checkpoints only move forward along a chain. -/
theorem le (h : Chain start txs last) : start.Le last := by
  induction h with
  | nil cp => exact .refl cp
  | cons hgap hadv _ ih =>
    obtain ⟨-, hseq, hoffset⟩ := checkpointAllowsLaneGap_iff.mp hgap
    refine .trans ⟨?_, hoffset.trans hadv.offset_le⟩ ih
    exact hseq.le.trans hadv.sequence_lt.le

/-- A chain stays within its partition. -/
theorem topicPartition (h : Chain start txs last) : last.topicPartition = start.topicPartition := by
  induction h with
  | nil => rfl
  | cons hgap hadv _ ih =>
    exact ih.trans (hadv.same_partition.trans (checkpointAllowsLaneGap_iff.mp hgap).1.symm)

end Chain

namespace Continues

variable [StreamEngine] {cps : Checkpoints} {tx : RecoveredTransaction}

theorem append_iff : Continues cps (txs ++ rest) ↔
    Continues cps txs ∧ Continues (cps.insertAll (txs.map (·.next))) rest := by
  induction txs generalizing cps with
  | nil => simp [Continues, Checkpoints.insertAll]
  | cons tx txs ih =>
    simp only [cons_append, Continues, ih, map_cons, Checkpoints.insertAll, foldl_cons, and_assoc]

theorem advances (h : Continues cps txs) : ∀ tx ∈ txs, tx.Advances := by
  induction txs generalizing cps with
  | nil => simp
  | cons tx txs ih =>
    obtain ⟨-, hadv, hrest⟩ := h
    exact forall_mem_cons.mpr ⟨hadv, ih hrest⟩

/-- The transactions of one partition form a chain. -/
theorem chain (h : Continues cps txs) (part) :
      Chain (cps.actual part) (txs.filter (·.partition = part))
      ((cps.insertAll (txs.map (·.next))).actual part) := by
  induction txs generalizing cps with
  | nil => exact .nil _
  | cons tx txs ih =>
    obtain ⟨hgap, hadv, hrest⟩ := h
    have htail := ih hrest
    by_cases hpart : tx.partition = part
    · subst hpart
      rw [filter_cons_of_pos (by simp)]
      refine .cons hgap hadv ?_
      rwa [Checkpoints.actual_insert_of_eq hadv.same_partition] at htail
    · rw [filter_cons_of_neg (by simpa using hpart)]
      have hne : tx.next.topicPartition ≠ part := by
        rw [hadv.same_partition]
        exact hpart
      rwa [Checkpoints.actual_insert_of_ne hne] at htail

end Continues

namespace Replays

section

variable (h : Replays start txs last)
include h

/-- Replaying a chain from its own start skips nothing, because each transaction moves the placement
sequence on. -/
theorem eq_of_chain (hchain : Chain start txs tip) : last = tip := by
  induction h generalizing tip with
  | nil => cases hchain; rfl
  | skip hcov _ _ =>
    cases hchain with
    | cons hgap hadv _ =>
      have hle := (checkpointCovers_iff.mp hcov).2.1
      have hseq := (checkpointAllowsLaneGap_iff.mp hgap).2.1
      have hlt := hadv.sequence_lt
      omega
  | apply _ _ _ ih =>
    cases hchain with
    | cons _ _ hrest => exact ih hrest

/-- Replaying a chain that begins at or before the checkpoint held ends at the end of the chain, or
it skipped everything and the checkpoint held is not before that end. -/
theorem cases_of_chain (hchain : Chain base txs tip)
    (hbase : base.Le start) : last = tip ∨ last = start ∧ tip.Le start := by
  induction h generalizing base with
  | nil cp =>
    cases hchain
    exact .inr ⟨rfl, hbase⟩
  | skip hcov _ ih =>
    cases hchain with
    | cons _ _ hrest => exact ih hrest (checkpointCovers_iff.mp hcov).2
  | apply _ _ hreplays _ =>
    cases hchain with
    | cons _ _ hrest => exact .inl (hreplays.eq_of_chain hrest)

/-- Checkpoints only move forward while transactions are replayed. -/
theorem sequence_le (hadv : ∀ tx ∈ txs, tx.Advances) :
    start.nextPlacementSequence ≤ last.nextPlacementSequence := by
  induction h with
  | nil => exact le_rfl
  | skip _ _ ih => exact ih (forall_mem_cons.mp hadv).2
  | apply _ hgap _ ih =>
    have hnext := ih (forall_mem_cons.mp hadv).2
    have hlt := (hadv _ mem_cons_self).sequence_lt
    have hseq := (checkpointAllowsLaneGap_iff.mp hgap).2.1
    omega

end

end Replays

end ShardTelemetry.Sink
