import ShardTelemetry.Lib.Run
import ShardTelemetry.Stripe.Applied

/-!
# Where the records of a stripe are

Every record that a partition holds should be in one block of the partition, active or sealed, and a
block should hold no other records (`LogStripe.Conserved`).

An active block is taken out of its map before it is rebalanced, and sealing takes the whole map.
When something fails then, the new record is popped from the partition, but the other records of
these blocks are in no block any more, and a group that was sealed before may have the record that
is popped.  So the records stay where they should be as long as nothing fails while a block with
other records is out of the map (`Event.Safe`).
-/

namespace ShardTelemetry.Stripe

open Query List BlockState

namespace LogStripe

/-- The records in the blocks of a partition, active and sealed, each as often as it is there. -/
def blockRecords (stripe : LogStripe) (partition : TopicPartition) : Multiset DurableLog :=
  (stripe.blocks.members partition).map PendingRecord.record

/-- Every record of a partition is in exactly one block of the partition, and the blocks have no
other records. -/
structure Conserved (stripe : LogStripe) : Prop where
  once :
    ∀ partition, ∀ record ∈ stripe.held partition, (stripe.blockRecords partition).count record = 1
  held : ∀ partition, ∀ record ∈ stripe.blockRecords partition, record ∈ stripe.held partition

/-- The invariant that is carried along: offsets increase, and the blocks have what is held. -/
structure Balanced (stripe : LogStripe) : Prop where
  offsets : ∀ partition, (stripe.held partition).Pairwise (·.offset < ·.offset)
  balance : ∀ partition, stripe.blockRecords partition = stripe.held partition

theorem Balanced.conserved {st : LogStripe} (h : st.Balanced) : st.Conserved where
  once part record mem := by
    have nodup : (st.held part).Nodup :=
      (h.offsets part).imp fun lt eq => absurd (congrArg DurableLog.offset eq) (ne_of_lt lt)
    rw [h.balance, Multiset.coe_count]
    exact count_eq_one_of_mem nodup mem
  held part record mem := by
    rwa [h.balance, Multiset.mem_coe] at mem

variable {st st' : LogStripe}

theorem balanced_new (streamShardId) (conf) : (new streamShardId conf).Balanced :=
  ⟨fun _ => .nil, fun _ => rfl⟩

theorem Balanced.of_same (h : st.Balanced) (same : st'.SameRecords st) : st'.Balanced where
  offsets part := by
    rw [same.held]
    exact h.offsets part
  balance part := by
    rw [blockRecords, same.blocks, same.held]
    exact h.balance part

/-- Blocks that hold the same records. -/
theorem Balanced.of_members (h : st.Balanced) {blocks : BlockState}
    (same : ∀ part, blocks.members part = st.blocks.members part) :
    Balanced { st with blocks } where
  offsets := h.offsets
  balance part := by
    rw [blockRecords, same]
    exact h.balance part

/-- One more record, in the block that it joined. -/
theorem Balanced.withRecord (h : st.Balanced) {blocks : BlockState}
    (joins : JoinsBlock record key pending) (valid : st.validateOffset record = .ok ())
    (members : ∀ part, blocks.members part = st.blocks.members part + share part key [pending]) :
    (st.withRecord blocks record).Balanced where
  offsets part := by
    rw [held_withRecord]
    split
    · next eq =>
      subst eq
      refine pairwise_append.mpr ⟨h.offsets _, pairwise_singleton _ _, ?_⟩
      intro other mem new eq
      rw [mem_singleton.mp eq]
      exact lt_of_validateOffset (h.offsets _) valid other mem
    · exact h.offsets part
  balance part := by
    have balance := h.balance part
    rw [held_withRecord, blockRecords, show (st.withRecord blocks record).blocks = blocks from rfl,
      members, Multiset.map_add, ← blockRecords, balance, share, joins.topicPartition]
    by_cases same : part = record.topicPartition
    · rw [if_pos same, if_pos same.symm, Multiset.map_coe, map_singleton, joins.pending,
        Multiset.coe_add]
    · rw [if_neg same, if_neg (Ne.symm same), Multiset.map_zero, add_zero]

/-- Rebalancing does not fail, or no active block has the partition and the cohort of the record. -/
def Safe (env : Environment) (stripe : LogStripe) (record : DurableLog) : Prop :=
  env.Faultless ∨ ∀ key : ActiveBlockKey, key.topicPartition = record.topicPartition →
    key.sourceCompressionCohort = record.compressionCohort →
      stripe.blocks.activeBlocks.lookup key = none

theorem Balanced.applyDurableNewInner (h : st.Balanced) (safe : Safe env st record) (indexRecord) :
    (st.applyDurableNewInner eng slots env record indexRecord).2.Balanced := by
  have out := applyDurableNewInner_applied eng slots env st record indexRecord
  generalize st.applyDurableNewInner eng slots env record indexRecord = res at out ⊢
  cases out with
  | refused error blocks same => exact h.of_members fun _ => same.members_eq
  | failed error key pending blocks joins failure =>
    obtain faultless | lone := safe
    · obtain ⟨_, _, eq⟩ := Faultless.appendActive faultless st.config key pending st.blocks.tick
      rw [eq] at failure
      cases failure
    · refine h.of_members fun part => ?_
      have alone : st.blocks.tick.Lone key := fun other samePartition sameCohort =>
        lone other (samePartition.trans joins.topicPartition) (sameCohort.trans joins.cohort)
      exact ((appendActive_error alone failure).trans (.tick _)).members_eq
  | applied key pending blocks sealedBlocks joins offset bound appended =>
    have balanced : (st.withRecord blocks record).Balanced :=
        h.withRecord joins offset fun part => by
      rw [appendActive_ok part appended, (SameBlocks.tick _).members_eq]
    refine balanced.of_same ?_
    dsimp only
    split
    · exact sameRecords_indexDurable ..
    · exact .refl _

theorem Balanced.sealActiveBlocks (h : st.Balanced) (faultless : env.Faultless) :
    (st.sealActiveBlocks env).2.Balanced := by
  obtain ⟨sealedBlocks, blocks, eq⟩ := Faultless.sealActiveBlocks faultless st.config st.blocks
  unfold LogStripe.sealActiveBlocks
  rw [eq]
  exact h.of_members fun part => sealActiveBlocks_ok part eq

end LogStripe

/-- Nothing fails in the call while a block with other records is out of the map. -/
def Event.Safe (stripe : LogStripe) : Event → Prop
  | .applyDurable env record => LogStripe.Safe env stripe record
  | .applyOtlpEvents env _ _ _ => env.Faultless
  | .sealActiveBlocks env => env.Faultless

namespace LogStripe

theorem Balanced.step (h : st.Balanced) {ev : Event} (safe : ev.Safe st)
    (next : st.step eng slots ev = some st') : st'.Balanced := by
  cases ev with
  | applyDurable env record =>
    cases next
    unfold applyDurable
    split
    · exact h
    · split
      · exact h
      · have applied : (st.applyDurableNewInner eng slots env record true).2.Balanced :=
          h.applyDurableNewInner safe true
        unfold applyDurableNew
        split
        · next eq => rwa [eq] at applied
        · next eq => rwa [eq] at applied
  | applyOtlpEvents env part firstOffset evs =>
    cases next
    have inner : ∀ indexRecord st record, Balanced st →
        (st.applyDurableNewInner eng slots env record indexRecord).2.Balanced :=
      fun indexRecord _ _ balanced => balanced.applyDurableNewInner (.inl safe) indexRecord
    refine applyOtlpEvents_invariant (inner true) (fun first others _ _ _ => ?_) h
    refine applyHomogeneousEvents_invariant (inner true)
      (inner false) ?_ part firstOffset first others h
    exact fun _ _ _ _ _ _ _ balanced => balanced.of_same (sameRecords_publish _ _ _ _ _ _)
  | sealActiveBlocks env =>
    cases next
    exact h.sealActiveBlocks safe

/-- In every run whose calls are safe, every record that is held is in exactly one block of its
partition after every call, whatever the call returned, and no block has a record that is not
held. -/
theorem records_conserved (eng : TextEngine) (slots : CacheSlots) (streamShardId : Nat)
    (conf : StripeConfig) {st : LogStripe}
    (run : Run.ReachesWhile (step eng slots) (fun st ev => ev.Safe st)
      (new streamShardId conf) st) :
    st.Conserved := by
  have balanced : st.Balanced :=
    run.invariant (I := Balanced) (fun _ _ _ h safe next => h.step safe next) (balanced_new _ _)
  exact balanced.conserved

/-! ## Runs -/

/-- A record of 24 bytes. -/
def sampleRecord (offset : Nat) : DurableLog := ⟨1, ⟨0, 0⟩, offset, 0, [], [], [], 0⟩

theorem sampleEnvironment_faultless : (sampleEnvironment none).Faultless :=
  ⟨fun _ _ => ⟨none, rfl⟩, fun _ _ _ => rfl⟩

/-- The second record fills the block of the first, which is sealed. -/
theorem records_conserved_sample :
      ∃ st : LogStripe, st.held ⟨0, 0⟩ = [sampleRecord 0, sampleRecord 1] ∧
      st.blocks.catalog.length = 1 ∧ st.Conserved := by
  refine ⟨_, ?_, ?_, records_conserved .ascii sampleSlots 1 sampleConfig (.tail (.tail (.refl _)
      (show Event.Safe _ (.applyDurable (sampleEnvironment none) (sampleRecord 0)) from
        .inl sampleEnvironment_faultless) rfl)
      (show Event.Safe _ (.applyDurable (sampleEnvironment none) (sampleRecord 1)) from
        .inl sampleEnvironment_faultless) rfl)⟩
  · decide +kernel
  · decide +kernel

/-- The second record fills the block of the first, and the compression of the block fails: the
first record is held, and no block has it. -/
theorem records_not_conserved :
    ¬ ∀ (eng : TextEngine) (slots : CacheSlots) (streamShardId : Nat) (conf : StripeConfig)
      (st : LogStripe), Run.Reaches (step eng slots) (new streamShardId conf) st →
        st.Conserved := by
  intro all
  have conserved := all .ascii sampleSlots 1 sampleConfig _
    ⟨[.applyDurable (sampleEnvironment none) (sampleRecord 0),
      .applyDurable (sampleEnvironment (some (.compressionFailed "out of memory")))
        (sampleRecord 1)], rfl⟩
  have once := conserved.once ⟨0, 0⟩ (sampleRecord 0) (by decide +kernel)
  revert once
  decide +kernel

end LogStripe

end ShardTelemetry.Stripe
