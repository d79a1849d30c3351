import ShardTelemetry.Stripe.Append
import ShardTelemetry.Stripe.BlockFlow

/-!
# What applying a record does

One record is refused before anything is written, or its block fails and it is taken back, or it is
pushed and indexed (`Applied`).  A batch is a sequence of such steps, so what every step keeps, the
batch keeps.
-/

namespace ShardTelemetry.Stripe

open Query List Function

namespace LogStripe

/-- The records of a partition. -/
def held (stripe : LogStripe) (partition : TopicPartition) : List DurableLog :=
  (stripe.partitions partition).records

/-- The stripe with one more record, not indexed yet. -/
def withRecord (stripe : LogStripe) (blocks : BlockState) (record : DurableLog) : LogStripe :=
  (pushRecord { stripe with blocks } record).updateTimestampOrder record

variable {engine : TextEngine} {slots : CacheSlots} {env : Environment} {stripe : LogStripe}
  {indexRecord : Bool}

/-- The block that a record joins. -/
structure JoinsBlock (record : DurableLog) (key : ActiveBlockKey) (pending : PendingRecord) :
    Prop where
  pending : pending.record = record
  topicPartition : key.topicPartition = record.topicPartition
  cohort : key.sourceCompressionCohort = record.compressionCohort

variable (engine slots env stripe record) in
/-- The outcomes of applying one record. -/
inductive Applied : Bool → TelemetryResult AppliedRecord × LogStripe → Prop
  /-- Nothing was written. -/
  | refused (indexRecord : Bool) (error : TelemetryError) (blocks : BlockState)
      (same : blocks.SameBlocks stripe.blocks) :
      Applied indexRecord (.error error, { stripe with blocks })
  /-- The block of the record could not be rebalanced. -/
  | failed (indexRecord : Bool) (error : TelemetryError) (key : ActiveBlockKey)
      (pending : PendingRecord) (blocks : BlockState) (joins : JoinsBlock record key pending)
      (failure : stripe.blocks.tick.appendActive env stripe.config key pending =
        (.error error, blocks)) :
      Applied indexRecord (.error error, { stripe with blocks })
  /-- The record was pushed, and indexed if that was asked for. -/
  | applied (indexRecord : Bool) (key : ActiveBlockKey) (pending : PendingRecord)
      (blocks : BlockState) (sealedBlocks : List SealedBlock)
      (joins : JoinsBlock record key pending)
      (offset : stripe.validateOffset record = .ok ())
      (bound : (stripe.held record.topicPartition).length < 2 ^ 32)
      (appended : stripe.blocks.tick.appendActive env stripe.config key pending =
        (.ok sealedBlocks, blocks)) :
      Applied indexRecord
        (let ordinal := (stripe.held record.topicPartition).length
        let receipt := ⟨record.topicPartition, record.offset, record.offset, sealedBlocks⟩
        let indexed := (stripe.withRecord blocks record).indexDurable engine slots record ordinal
        if indexRecord then (.ok ⟨receipt, ordinal, indexed.1, indexed.2.1⟩, indexed.2.2)
        else (.ok ⟨receipt, ordinal, [], []⟩, stripe.withRecord blocks record))

theorem popRecord_pushRecord (blocks) :
    popRecord { stripe.pushRecord record with blocks } record.topicPartition =
      { stripe with blocks } := by
  simp only [popRecord, pushRecord, setPartition, update_self, dropLast_concat, update_idem,
    update_eq_self]

theorem applyDurableNewInner_applied (engine) (slots) (env) (stripe) (record) (indexRecord) :
    Applied engine slots env stripe record indexRecord
      (stripe.applyDurableNewInner engine slots env record indexRecord) := by
  unfold applyDurableNewInner
  split
  · next error _ => exact .refused _ error stripe.blocks (.refl _)
  · next offset =>
    split
    · next error _ => exact .refused _ error stripe.blocks (.refl _)
    · next sourceBytes _ =>
      split
      · next error _ => exact .refused _ error _ (.tick _)
      · next placementId dictionaryId _ =>
        dsimp only
        split
        · exact .refused _ _ _ (.tick _)
        · next bound =>
          have joins : JoinsBlock record ⟨record.topicPartition, record.compressionCohort,
            placementId, dictionaryId⟩ ⟨record, sourceBytes⟩ := ⟨rfl, rfl, rfl⟩
          split
          · next error blocks failure =>
            rw [popRecord_pushRecord]
            exact .failed _ error _ _ blocks joins failure
          · next sealedBlocks blocks appended =>
            exact .applied _ _ _ blocks sealedBlocks joins offset (not_le.mp bound) appended

/-- The offset of a record that is valid is above those of its partition. -/
theorem lt_of_validateOffset
    (offs : (stripe.held record.topicPartition).Pairwise (·.offset < ·.offset))
    (valid : stripe.validateOffset record = .ok ()) :
    ∀ other ∈ stripe.held record.topicPartition, other.offset < record.offset := by
  unfold validateOffset PartitionIndex.lastOffset at valid
  rw [← held] at valid
  cases last : (stripe.held record.topicPartition).getLast? with
  | none =>
    rw [getLast?_eq_none_iff.mp last]
    exact nofun
  | some prev =>
    simp only [last, Option.map_some] at valid
    have above : prev.offset < record.offset := by
      split at valid
      · cases valid
      · split at valid
        · cases valid
        · next above => exact not_le.mp above
    obtain ⟨before, eq⟩ := getLast?_eq_some_iff.mp last
    intro other mem
    rw [eq] at mem offs
    obtain mem | mem := mem_append.mp mem
    · exact lt_trans (pairwise_append.mp offs |>.2.2 other mem prev (by simp)) above
    · rwa [mem_singleton.mp mem]

/-! ## What indexing leaves alone -/

/-- The stripes have the same records and blocks, and what never changes. -/
structure SameRecords (stripe' stripe : LogStripe) : Prop where
  held : ∀ partition, stripe'.held partition = stripe.held partition
  blocks : stripe'.blocks = stripe.blocks
  config : stripe'.config = stripe.config
  streamShardId : stripe'.streamShardId = stripe.streamShardId

protected theorem SameRecords.refl (stripe : LogStripe) : stripe.SameRecords stripe :=
  ⟨fun _ => rfl, rfl, rfl, rfl⟩

theorem SameRecords.trans {stripe₁ stripe₂ stripe₃ : LogStripe} (h : stripe₁.SameRecords stripe₂)
    (h' : stripe₂.SameRecords stripe₃) : stripe₁.SameRecords stripe₃ where
  held part := (h.held part).trans (h'.held part)
  blocks := h.blocks.trans h'.blocks
  config := h.config.trans h'.config
  streamShardId := h.streamShardId.trans h'.streamShardId

theorem partitions_setPartition (part other) (ix) : (stripe.setPartition part ix).partitions other =
      if other = part then ix else stripe.partitions other := by
  simp only [setPartition, update_apply]

@[simp] theorem partitions_setPartition_self (part) (ix) :
    (stripe.setPartition part ix).partitions part = ix :=
  update_self _ _ _

theorem sameRecords_setPartition (recs : ix.records = stripe.held part) :
    (stripe.setPartition part ix).SameRecords stripe where
  held other := by
    unfold held
    rw [partitions_setPartition]
    split
    · next same =>
      subst same
      exact recs
    · rfl
  blocks := rfl
  config := rfl
  streamShardId := rfl

theorem sameRecords_cacheTerms (slot) (cached) :
    (stripe.cacheTerms slot cached).SameRecords stripe := ⟨fun _ => rfl, rfl, rfl, rfl⟩

theorem sameRecords_cacheFields (slot) (cached) :
    (stripe.cacheFields slot cached).SameRecords stripe := ⟨fun _ => rfl, rfl, rfl, rfl⟩

section Indexing

variable (engine slots stripe record)

theorem sameRecords_termIds : (stripe.termIds engine slots record).2.SameRecords stripe := by
  unfold termIds
  dsimp only
  split
  · exact .refl _
  · exact (sameRecords_cacheTerms _ _).trans (sameRecords_setPartition rfl)

theorem sameRecords_fieldIds : (stripe.fieldIds slots record).2.SameRecords stripe := by
  unfold fieldIds
  dsimp only
  split
  · exact .refl _
  · exact (sameRecords_cacheFields _ _).trans (sameRecords_setPartition rfl)

theorem sameRecords_indexTerms (ord) :
    (stripe.indexTerms engine slots record ord).2.SameRecords stripe := by
  refine SameRecords.trans ?_ (sameRecords_termIds engine slots stripe record)
  exact sameRecords_setPartition rfl

theorem sameRecords_indexFields (ord) :
    (stripe.indexFields slots record ord).2.SameRecords stripe := by
  refine SameRecords.trans ?_ (sameRecords_fieldIds slots stripe record)
  exact sameRecords_setPartition rfl

theorem sameRecords_indexDurable (ord) :
    (stripe.indexDurable engine slots record ord).2.2.SameRecords stripe := by
  refine SameRecords.trans ?_ ((sameRecords_indexFields slots _ record ord).trans
    (sameRecords_indexTerms engine slots stripe record ord))
  exact sameRecords_setPartition rfl

end Indexing

theorem sameRecords_publish (part) (first last offset) (termIds fieldIds) :
    (stripe.publishHomogeneousPostingRange part first last offset termIds fieldIds).SameRecords
      stripe :=
  sameRecords_setPartition rfl

theorem held_withRecord (blocks) (record) (part) : (stripe.withRecord blocks record).held part =
      if part = record.topicPartition then stripe.held part ++ [record] else stripe.held part := by
  simp only [withRecord, updateTimestampOrder, pushRecord, held, partitions_setPartition, if_true]
  split
  · next same => rw [same]
  · rfl

/-! ## Batches -/

section Batch

variable {P : LogStripe → Prop}
  (indexed : ∀ stripe record, P stripe →
    P (stripe.applyDurableNewInner engine slots env record true).2)
include indexed

theorem applyDurableNew_invariant (h : P stripe) (record : DurableLog) :
    P (stripe.applyDurableNew engine slots env record).2 := by
  have next := indexed stripe record h
  unfold applyDurableNew
  split
  · next eq => rwa [eq] at next
  · next eq => rwa [eq] at next

theorem applyDurable_invariant (h : P stripe) (record : DurableLog) :
    P (stripe.applyDurable engine slots env record).2 := by
  unfold applyDurable
  split
  · exact h
  · split
    · exact h
    · exact applyDurableNew_invariant indexed h record

theorem applyDurableIdempotent_invariant (h : P stripe) (record : DurableLog) :
    P (stripe.applyDurableIdempotent engine slots env record).2 := by
  unfold applyDurableIdempotent
  dsimp only
  split
  · split
    · exact h
    · exact h
  · exact applyDurableNew_invariant indexed h record

theorem applyEvents_invariant (part : TopicPartition) (firstOffset pos : Nat)
    (evs : List OtlpLogEvent) (rcpts : List IndexReceipt) (h : P stripe) :
    P (stripe.applyEvents engine slots env part firstOffset pos evs rcpts).2 := by
  induction evs generalizing stripe pos rcpts with
  | nil => exact h
  | cons ev evs ih =>
    unfold applyEvents
    split
    · exact h
    · next offset _ =>
      have next := applyDurableIdempotent_invariant indexed h
        (ev.intoDurable stripe.streamShardId part offset)
      split
      · next eq => rwa [eq] at next
      · next eq => exact ih _ _ (by rwa [eq] at next)

/-- What the records of a batch keep one by one, and what batches with equal events keep, every
batch keeps. -/
theorem applyOtlpEvents_invariant (homogeneous : ∀ first others, evs = first :: others →
      (∀ ev ∈ others, ev.message = first.message ∧ ev.fields = first.fields) →
      validateBatchOffsetRange part firstOffset evs.length = .ok () →
      P (stripe.applyHomogeneousEvents engine slots env part firstOffset first others).2)
    (h : P stripe) : P (stripe.applyOtlpEvents engine slots env part firstOffset evs).2 := by
  unfold applyOtlpEvents
  split
  · exact h
  · split
    · exact h
    · next valid =>
      split
      · next range =>
        cases evs with
        | nil => exact h
        | cons first others =>
          refine homogeneous first others rfl (fun ev mem => ?_) valid
          cases others with
          | nil => cases mem
          | cons second others =>
            have all := (Bool.and_eq_true _ _ ▸ range).2
            have equal := all_eq_true.mp all ev mem
            rw [Bool.and_eq_true, decide_eq_true_eq, decide_eq_true_eq] at equal
            exact ⟨equal.1.symm, equal.2.symm⟩
      · exact applyEvents_invariant indexed part firstOffset 0 evs [] h

theorem applyHomogeneousEvents_invariant (deferred : ∀ stripe record, P stripe →
      P (stripe.applyDurableNewInner engine slots env record false).2)
    (publish : ∀ stripe part first last offset termIds fieldIds, P stripe →
      P (stripe.publishHomogeneousPostingRange part first last offset termIds fieldIds))
    (part : TopicPartition) (firstOffset : Nat) (first : OtlpLogEvent)
    (evs : List OtlpLogEvent) (h : P stripe) :
    P (stripe.applyHomogeneousEvents engine slots env part firstOffset first evs).2 := by
  have loop : ∀ pos evs state (stripe : LogStripe), P stripe →
      P (stripe.applyDeferred engine slots env part firstOffset pos evs state).2.2 := by
    intro pos evs
    induction evs generalizing pos with
    | nil => exact fun _ _ h => h
    | cons ev evs ih =>
      intro state stripe h
      unfold applyDeferred
      split
      · exact h
      · next offset _ =>
        have next := deferred stripe (ev.intoDurable stripe.streamShardId part offset) h
        split
        · next eq => rwa [eq] at next
        · next eq => exact ih _ _ _ (by rwa [eq] at next)
  have next := indexed stripe (first.intoDurable stripe.streamShardId part firstOffset) h
  unfold applyHomogeneousEvents
  split
  · next eq => rwa [eq] at next
  · next applied stripe₁ eq =>
    rw [eq] at next
    have after := loop 1 evs ⟨[applied.receipt], none⟩ stripe₁ next
    generalize stripe₁.applyDeferred engine slots env part firstOffset 1 evs
      ⟨[applied.receipt], none⟩ = res at after ⊢
    obtain ⟨failure, state, stripe₂⟩ := res
    cases failure
    all_goals
      dsimp only
      split
      · exact after
      · exact publish _ _ _ _ _ _ _ after

end Batch

end LogStripe

end ShardTelemetry.Stripe
