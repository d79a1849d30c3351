import ShardTelemetry.Sink.Service

/-!
# What indexing and offloading do to a stripe

Indexing installs at most one append.  Offloading is a sequence of moves, each publishing the first
appends of a partition as one group and dropping them; a pass that fails may leave one group
published whose appends are still resident.
-/

namespace ShardTelemetry.Sink

open Tier (ObjectTierConfig TierBlockEntry TierCheckpoint TierGroupSource Digest)

variable {ι : Type}

/-! ## Indexing -/

/-- Identifiers are only used up. -/
theorem assignFrameIds_le (frames : List (IndexedIngestFrame ι)) (nextFrameId : Nat) :
    nextFrameId ≤ (assignFrameIds frames nextFrameId).2 := by
  induction frames generalizing nextFrameId with
  | nil => exact le_rfl
  | cons frame rest ih =>
    unfold assignFrameIds
    cases hnext : checkedAdd nextFrameId 1 with
    | none => exact le_rfl
    | some next =>
      have hle := ih next
      have heq := (checkedAdd_eq_some.mp hnext).1
      exact le_trans (by omega) hle

/-- What a pack adds to a stripe. -/
structure Installs (decoder : PackDecoder ι) (pack : PackAppend) (stripe : LogStripe ι)
    (append : IndexedFrameAppend ι) (nextFrameId : Nat) : Prop where
  partition_eq : pack.next.topicPartition = pack.topicPartition
  tenant_ne : pack.tenant.isEmpty = false
  count_ne : pack.recordCount ≠ 0
  lastOffset_lt : append.lastOffset < u64Bound
  beyond : ∀ previous, stripe.indexedThrough pack.topicPartition = some previous →
    previous < pack.firstOffset
  frames : ∃ frames, decoder.frames pack.payloadAlreadyValidated pack.payload pack.transientContext
      pack.recordCount = .ok frames ∧
    assignFrameIds frames stripe.nextFrameId = (.ok append.frames, nextFrameId)
  append_eq : append = ⟨pack.tenant, pack.firstOffset, pack.firstOffset + (pack.recordCount - 1),
    pack.recordCount, append.frames, some pack.next⟩

variable {I : LogStripe ι → Prop}

theorem checkWatermark_eq_true
    (h : checkWatermark part firstOffset lastOffset watermark = .ok true) :
    ∃ prev, watermark = some prev ∧ lastOffset ≤ prev := by
  cases watermark with
  | none => cases h
  | some prev =>
    refine ⟨prev, rfl, ?_⟩
    simp only [checkWatermark] at h
    split at h
    · split at h
      · assumption
      · obtain ⟨_, _, h⟩ := bind_eq_ok.mp h
        cases h
    · cases h

theorem checkWatermark_eq_false
    (h : checkWatermark part firstOffset lastOffset watermark = .ok false) :
    ∀ prev, watermark = some prev → prev < firstOffset := by
  rintro prev rfl
  simp only [checkWatermark] at h
  split at h
  · split at h
    · cases h
    · obtain ⟨_, _, h⟩ := bind_eq_ok.mp h
      cases h
  · omega

/-- Indexing a pack fails and only uses up frame identifiers, or finds the pack indexed already, or
installs one append. -/
theorem LogStripe.applyCheckpointedIngestPack_cases (dec : PackDecoder ι) (pack : PackAppend)
    (st : LogStripe ι) : (∃ error nextFrameId, st.nextFrameId ≤ nextFrameId ∧
      st.applyCheckpointedIngestPack dec pack = (.error error, { st with nextFrameId })) ∨
    (∃ prev, st.indexedThrough pack.topicPartition = some prev ∧
      pack.recordCount ≠ 0 ∧ pack.firstOffset + (pack.recordCount - 1) ≤ prev ∧
      st.applyCheckpointedIngestPack dec pack = (.ok (), st)) ∨
    ∃ append nextFrameId, Installs dec pack st append nextFrameId ∧
        st.applyCheckpointedIngestPack dec pack =
        (.ok (), st.install pack.topicPartition append nextFrameId) := by
  unfold applyCheckpointedIngestPack
  simp only
  split
  · exact .inl ⟨_, st.nextFrameId, le_rfl, rfl⟩
  · rename_i checked lastOffset h
    obtain ⟨_, -, h⟩ := bind_eq_ok.mp h
    obtain ⟨_, hpack, h⟩ := bind_eq_ok.mp h
    obtain ⟨_, hlast, h⟩ := bind_eq_ok.mp h
    obtain ⟨replayed, hreplayed, h⟩ := bind_eq_ok.mp h
    cases h
    obtain ⟨rfl, -⟩ := checkedAdd_eq_some.mp (okOr_eq_ok.mp hlast)
    obtain ⟨prev, hprevious, hle⟩ := checkWatermark_eq_true hreplayed
    simp only [ensure_eq_ok, Bool.and_eq_true, decide_eq_true_eq] at hpack
    exact .inr (.inl ⟨prev, hprevious, hpack.2, hle, rfl⟩)
  · rename_i checked lastOffset h
    obtain ⟨_, hpart, h⟩ := bind_eq_ok.mp h
    obtain ⟨_, hpack, h⟩ := bind_eq_ok.mp h
    obtain ⟨_, hlast, h⟩ := bind_eq_ok.mp h
    obtain ⟨replayed, hreplayed, h⟩ := bind_eq_ok.mp h
    cases h
    obtain ⟨rfl, hlt⟩ := checkedAdd_eq_some.mp (okOr_eq_ok.mp hlast)
    simp only [ensure_eq_ok, Bool.and_eq_true, decide_eq_true_eq, Bool.not_eq_true'] at hpack hpart
    split
    · exact .inl ⟨_, st.nextFrameId, le_rfl, rfl⟩
    rename_i frames hframes
    have hle := assignFrameIds_le frames st.nextFrameId
    split
    · rename_i error nextFrameId hassign
      rw [hassign] at hle
      exact .inl ⟨error, nextFrameId, hle, rfl⟩
    · rename_i frames' nextFrameId hassign
      refine .inr (.inr ⟨_, nextFrameId, ⟨hpart.2, hpack.1, hpack.2, hlt,
        checkWatermark_eq_false hreplayed, ⟨frames, hframes, hassign⟩, rfl⟩, rfl⟩)

/-- Indexing a payload changes at most the log half of the stripe, by indexing one pack. -/
theorem indexPayload_cases (dec : Decoder ι) (env : Env) (append : PayloadAppend)
    (st : TelemetryStripeState ι) :
    (∃ res, indexPayload dec env append st = (res, st) ∧
      (append.topicPartition.topicId = TelemetrySignal.logs.topicId →
        ∃ error, res = .error error)) ∨
    ∃ envelope, openEnvelope dec append = .ok envelope ∧
      indexPayload dec env append st =
        ((st.logs.applyCheckpointedIngestPack dec.toPackDecoder (append.pack envelope)).1,
          { st with logs := (st.logs.applyCheckpointedIngestPack dec.toPackDecoder
            (append.pack envelope)).2 }) := by
  unfold indexPayload
  cases hopen : openEnvelope dec append with
  | error error => exact .inl ⟨_, rfl, fun _ => ⟨error, rfl⟩⟩
  | ok envelope =>
    have htopic : envelope.signal.topicId = append.topicPartition.topicId := by
      obtain ⟨_, -, hopen⟩ := bind_eq_ok.mp hopen
      obtain ⟨view, -, hopen⟩ := bind_eq_ok.mp hopen
      obtain ⟨_, htopic, hopen⟩ := bind_eq_ok.mp hopen
      obtain ⟨_, -, hopen⟩ := bind_eq_ok.mp hopen
      cases hopen
      simpa using htopic
    simp only
    cases hsignal : envelope.signal with
    | logs =>
      simp only
      split
      · exact .inl ⟨_, rfl, fun _ => ⟨_, rfl⟩⟩
      · exact .inr ⟨envelope, rfl, rfl⟩
    | traces =>
      refine .inl ⟨_, rfl, fun hlogs => ?_⟩
      rw [hsignal, hlogs] at htopic
      cases htopic
    | metrics =>
      refine .inl ⟨_, rfl, fun hlogs => ?_⟩
      rw [hsignal, hlogs] at htopic
      cases htopic

section

variable (hids : ∀ logs nextFrameId, logs.nextFrameId ≤ nextFrameId → I logs →
  I { logs with nextFrameId })
include hids

/-- What installing one append preserves, indexing a payload preserves. -/
theorem indexPayload_invariant (env : Env) (hinstall : ∀ logs envelope installed nextFrameId,
      Installs dec.toPackDecoder (append.pack envelope) logs installed nextFrameId → I logs →
      I (logs.install append.topicPartition installed nextFrameId))
    (h : I st.logs) :
    ∃ logs, I logs ∧ ∃ res, indexPayload dec env append st = (res, { st with logs }) := by
  obtain ⟨res, heq, -⟩ | ⟨envelope, -, heq⟩ := indexPayload_cases dec env append st
  · exact ⟨st.logs, h, res, heq⟩
  · refine ⟨_, ?_, _, heq⟩
    obtain ⟨error, nextFrameId, hle, heq⟩ | ⟨_, -, -, -, heq⟩ |
      ⟨installed, nextFrameId, hinst, heq⟩ :=
      st.logs.applyCheckpointedIngestPack_cases dec.toPackDecoder (append.pack envelope)
    · rw [heq]
      exact hids _ _ hle h
    · rw [heq]
      exact h
    · rw [heq]
      exact hinstall _ envelope _ _ hinst h

/-- What installing an append preserves, indexing a transaction preserves. -/
theorem indexDurableAppends_invariant (dec : Decoder ι) (env : Env)
    (want next : DurableSinkCheckpoint) (appends : List DurableAppend)
    (hinstall : ∀ append ∈ appends, ∀ logs envelope installed nextFrameId,
      Installs dec.toPackDecoder ((append.toPayload want next).pack envelope) logs installed
        nextFrameId → I logs → I (logs.install append.topicPartition installed nextFrameId))
    (st : TelemetryStripeState ι) (h : I st.logs) : ∃ logs, I logs ∧
      (indexDurableAppends dec env want next appends st).2 = { st with logs } := by
  induction appends generalizing st with
  | nil => exact ⟨st.logs, h, rfl⟩
  | cons append rest ih =>
    unfold indexDurableAppends
    split
    · exact ⟨st.logs, h, rfl⟩
    · obtain ⟨logs, hlogs, res, heq⟩ :=
        indexPayload_invariant hids env (hinstall append List.mem_cons_self) h
      rw [heq]
      cases res with
      | error error => exact ⟨logs, hlogs, rfl⟩
      | ok => exact ih (List.forall_mem_cons.mp hinstall).2 { st with logs } hlogs

/-- What installing an append preserves, replaying a transaction preserves. -/
theorem replayAppends_invariant
      (hinstall : ∀ append ∈ appends, ∀ logs envelope installed nextFrameId,
      Installs dec.toPackDecoder ((append.toPayload want next).pack envelope) logs installed
        nextFrameId → I logs → I (logs.install append.topicPartition installed nextFrameId))
    (st : TelemetryStripeState ι) (h : I st.logs)
    (hreplay : replayAppends dec env want next appends st = .ok st') :
    ∃ logs, I logs ∧ st' = { st with logs } := by
  induction appends generalizing st with
  | nil => exact ⟨st.logs, h, (Except.ok.inj hreplay).symm⟩
  | cons append rest ih =>
    obtain ⟨logs, hlogs, res, heq⟩ :=
      indexPayload_invariant hids env (hinstall append List.mem_cons_self) h
    rw [replayAppends, heq] at hreplay
    cases res with
    | error error => cases hreplay
    | ok => exact ih (List.forall_mem_cons.mp hinstall).2 { st with logs } hlogs hreplay

end

/-! ## Offloading -/

/-- A group the stripe selected, wrote and found acceptable to the catalog of its partition. -/
structure GroupMove (checksum : List UInt8 → Digest) (stripe : LogStripe ι)
    (partition : TopicPartition) where
  state : StripeTierState ι
  count : Nat
  checkpoint : DurableSinkCheckpoint
  blocks : List TierBlockEntry
  nextBlockId : Nat
  tier_eq : stripe.tier = some state
  count_pos : 0 < count
  selected : ∃ payloadBytes frames, selectAppends state.config
    (stripe.indexedFramePartitions partition).appends ⟨0, 0, 0⟩ = .ok ⟨count, payloadBytes, frames⟩
  checkpoint_eq : (stripe.indexedFramePartitions partition).appends[count - 1]?.bind
    (·.nextCheckpoint) = some checkpoint
  written : writeTierIngestGroup checksum
    (((stripe.indexedFramePartitions partition).appends.take count).map (·.source)) = .ok blocks
  checked : (state.tiers partition).checkGroup state.config
    (groupSource partition (state.tiers partition).nextGroupSequence
      ⟨checkpoint.nextPlacementSequence, checkpoint.nextOffset⟩ blocks) = .ok nextBlockId

namespace GroupMove

variable {checksum : List UInt8 → Digest} {st : LogStripe ι} {part : TopicPartition}

/-- The appends of the group. -/
def sources (move : GroupMove checksum st partition) : List (TierIngestAppendSource ι) :=
  ((st.indexedFramePartitions partition).appends.take move.count).map (·.source)

/-- The checkpoint of the group. -/
def tierCheckpoint (move : GroupMove checksum st partition) : TierCheckpoint :=
  ⟨move.checkpoint.nextPlacementSequence, move.checkpoint.nextOffset⟩

/-- The catalog with the group. -/
def tier (move : GroupMove checksum st partition) : PartitionTier ι :=
  (move.state.tiers partition).publish
    (groupSource partition (move.state.tiers partition).nextGroupSequence
      move.tierCheckpoint move.blocks)
    move.sources move.nextBlockId

/-- The stripe once the group is published, before its appends are dropped. -/
def published (move : GroupMove checksum st partition) : LogStripe ι :=
  st.setTier move.state partition move.tier

/-- The stripe once the appends of the group are dropped. -/
def moved (move : GroupMove checksum st partition) : LogStripe ι :=
  move.published.drain partition move.count

end GroupMove

section Offload

theorem LogStripe.setTier_self {st : LogStripe ι} (h : st.tier = some state) (part) :
    st.setTier state part (state.tiers part) = st := by
  cases st
  cases h
  simp [setTier]

/-- One round changes nothing, or it publishes a group and fails before the appends are dropped, or
it moves a group. -/
theorem LogStripe.offloadOneIndexedGroup_cases (checksum : List UInt8 → Digest)
    (attempts : Attempts) (part : TopicPartition) (force : Bool) (st : LogStripe ι) :
    (∃ res, res ≠ .ok true ∧ st.offloadOneIndexedGroup checksum attempts part force = (res, st)) ∨
    (∃ (move : GroupMove checksum st part) (error : TelemetryError),
      attempts part (move.state.tiers part).nextGroupSequence = .failsAfter error ∧
      st.offloadOneIndexedGroup checksum attempts part force = (.error error, move.published)) ∨
    ∃ move : GroupMove checksum st part,
      st.offloadOneIndexedGroup checksum attempts part force = (.ok true, move.moved) := by
  unfold offloadOneIndexedGroup
  split
  · exact .inl ⟨_, by simp, rfl⟩
  rename_i state htier
  simp only
  split
  · exact .inl ⟨_, by simp, rfl⟩
  rename_i selected hsel
  split
  · exact .inl ⟨_, by simp, rfl⟩
  split
  · exact .inl ⟨_, by simp, rfl⟩
  rename_i checkpoint hcp
  unfold offloadSelected
  simp only
  split
  · exact .inl ⟨_, by simp, rfl⟩
  rename_i blocks hblocks
  cases hcheck : (state.tiers part).checkGroup state.config
      (groupSource part (state.tiers part).nextGroupSequence
        ⟨checkpoint.nextPlacementSequence, checkpoint.nextOffset⟩ blocks) with
  | error error =>
    have hpublish : ∀ attempt sources, (state.tiers part).publishGroup state.config attempt
        (groupSource part (state.tiers part).nextGroupSequence
          ⟨checkpoint.nextPlacementSequence, checkpoint.nextOffset⟩ blocks) sources =
        (.error error, state.tiers part) := by
      intro attempt sources
      simp only [PartitionTier.publishGroup, hcheck]
    rw [hpublish]
    exact .inl ⟨.error error, by simp, by simp only [setTier_self htier]⟩
  | ok nextBlockId =>
    let move : GroupMove checksum st part :=
      { state, count := selected.appends, checkpoint, blocks, nextBlockId, tier_eq := htier
        count_pos := by omega, selected := ⟨_, _, hsel⟩, checkpoint_eq := hcp
        written := hblocks, checked := hcheck }
    unfold PartitionTier.publishGroup
    simp only [hcheck]
    cases hattempt : attempts part (state.tiers part).nextGroupSequence with
    | completes => exact .inr (.inr ⟨move, rfl⟩)
    | failsBefore error =>
      exact .inl ⟨.error error, by simp, by simp only [setTier_self htier]⟩
    | failsAfter error => exact .inr (.inl ⟨move, error, hattempt, rfl⟩)

/-- What every round of a pass preserves, a pass preserves. -/
theorem LogStripe.offloadIndexedGroups_invariant
    (hmoved : ∀ st part (move : GroupMove checksum st part), I st → I move.moved)
    (hpub : ∀ st part (move : GroupMove checksum st part) error,
      attempts part (move.state.tiers part).nextGroupSequence = .failsAfter error →
      I st → I move.published) (force : Bool) (h : I st) :
    I (st.offloadIndexedGroups checksum attempts force).2 := by
  have hround : ∀ part rounds st, I st →
      I (st.offloadPartition checksum attempts part force rounds).2 := by
    intro part rounds
    induction rounds with
    | zero => exact fun _ h => h
    | succ rounds ih =>
      intro st h
      unfold offloadPartition
      obtain ⟨res, hne, heq⟩ | ⟨move, error, hattempt, heq⟩ | ⟨move, heq⟩ :=
        st.offloadOneIndexedGroup_cases checksum attempts part force
      · rw [heq]
        match res, hne with
        | .error _, _ => exact h
        | .ok false, _ => exact h
      · rw [heq]
        exact hpub _ _ move error hattempt h
      · rw [heq]
        exact ih _ (hmoved _ _ move h)
  have hparts : ∀ parts st, I st →
      I (st.offloadPartitions checksum attempts force parts).2 := by
    intro parts
    induction parts with
    | nil => exact fun _ h => h
    | cons part rest ih =>
      intro st h
      have hfirst := hround part ((st.indexedFramePartitions part).appends.length + 1) st h
      unfold offloadPartitions
      revert hfirst
      cases st.offloadPartition checksum attempts part force
          ((st.indexedFramePartitions part).appends.length + 1) with
      | mk res st' =>
        intro hfirst
        cases res with
        | error error => exact hfirst
        | ok count => exact ih _ hfirst
  unfold offloadIndexedGroups
  split
  · exact h
  · exact hparts _ _ h

end Offload

end ShardTelemetry.Sink
