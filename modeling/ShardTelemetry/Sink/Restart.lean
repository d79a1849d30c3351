import ShardTelemetry.Sink.World

/-!
# Restart and the next transaction

After a restart the engine continues each partition from the checkpoint that the sink merged from
the published catalogs and from the journal.  The journal goes by its own last frame: it accepts the
next transaction only if that frame ends at the same placement sequence.

The two differ when a catalog is ahead of the journal.  A group is published as soon as its appends
are indexed, while the frame of their transaction may be unsynced; a crash can lose the frame and
keep the group.  Start-up then succeeds from the published checkpoint, and the journal refuses every
transaction that continues it.  `restart_accepts_iff` says that nothing else refuses it but a full
journal and an error of the stripe.
-/

namespace ShardTelemetry.Sink

open TelemetrySink Checkpoints List Function

open Tier (TierCheckpoint Digest)

variable {ι : Type}

/-! ## Replaying one partition -/

variable {txs : List RecoveredTransaction}

/-- Sorting leaves the transactions of one partition in their order, if they were in order. -/
theorem filter_insertionSort
    (h : (txs.filter (·.partition = part)).Pairwise RecoveredTransaction.Before) :
    (txs.insertionSort RecoveredTransaction.Before).filter (·.partition = part) =
      txs.filter (·.partition = part) := by
  have hsublist := sublist_insertionSort h filter_sublist
  have hfilter := hsublist.filter fun tx => decide (tx.partition = part)
  rw [filter_filter] at hfilter
  simp only [Bool.and_self] at hfilter
  refine (hfilter.eq_of_length ?_).symm
  exact ((perm_insertionSort _ txs).filter _).length_eq.symm

/-- A chain of one partition is in the order of start-up. -/
theorem Chain.pairwise_before (h : Chain start txs last) (hpart : ∀ tx ∈ txs, tx.partition = part) :
    txs.Pairwise RecoveredTransaction.Before := by
  have hseq : ∀ {start last : DurableSinkCheckpoint} {txs : List RecoveredTransaction},
      Chain start txs last →
        ∀ tx ∈ txs, start.nextPlacementSequence ≤ tx.expected.nextPlacementSequence := by
    intro start last txs h
    induction h with
    | nil => simp
    | cons hgap hadv _ ih =>
      have heq := (checkpointAllowsLaneGap_iff.mp hgap).2.1
      have hlt := hadv.sequence_lt
      intro tx hmem
      rcases mem_cons.mp hmem with rfl | hmem
      · exact heq.le
      · have hle := ih tx hmem
        omega
  induction h with
  | nil => exact .nil
  | cons hgap hadv hrest ih =>
    refine .cons (fun other hmem => ?_) (ih (forall_mem_cons.mp hpart).2)
    have hle := hseq hrest other hmem
    have hlt := hadv.sequence_lt
    have hfirst := hpart _ mem_cons_self
    have hother := hpart other (.tail _ hmem)
    refine .inr ⟨by rw [hfirst, hother], .inr ⟨by rw [hfirst, hother], by omega⟩⟩

section Engine

variable [StreamEngine]

/-- Start-up replays each partition from the checkpoint found for it. -/
theorem replayTransactions_replays (h : replayTransactions dec env txs cps st = .ok (cps', st'))
    (hadv : ∀ tx ∈ txs, tx.Advances) (part) :
    Replays (cps.actual part) (txs.filter (·.partition = part)) (cps'.actual part) := by
  induction txs generalizing cps st with
  | nil =>
    cases h
    exact .nil _
  | cons tx rest ih =>
    obtain ⟨hfirst, hrest⟩ := forall_mem_cons.mp hadv
    have hsame := hfirst.same_partition
    unfold replayTransactions at h
    simp only at h
    split at h
    · rename_i hcov
      have htail := ih h hrest
      by_cases hpart : tx.partition = part
      · subst hpart
        rw [filter_cons_of_pos (by simp)]
        exact .skip hcov htail
      · rwa [filter_cons_of_neg (by simpa using hpart)]
    · rename_i hcov
      split at h
      · rename_i hgap
        obtain ⟨middle, -, h⟩ := bind_eq_ok.mp h
        have htail := ih h hrest
        by_cases hpart : tx.partition = part
        · subst hpart
          rw [filter_cons_of_pos (by simp)]
          rw [actual_insert_of_eq hsame] at htail
          exact .apply (Bool.eq_false_iff.mpr hcov) hgap htail
        · rw [filter_cons_of_neg (by simpa using hpart)]
          rwa [actual_insert_of_ne (by rw [hsame]; exact hpart)] at htail
      · cases h

/-! ## Checkpoints of a stripe

Every checkpoint in the system is one that transactions led to, so it is not before the initial one
of its partition. -/

/-- The checkpoint is not before the initial one of the partition. -/
def Placed (partition : TopicPartition) (checkpoint : DurableSinkCheckpoint) : Prop :=
  (StreamEngine.initial partition).Le checkpoint

structure LogsPlaced (logs : LogStripe ι) : Prop where
  resident : ∀ partition, ∀ append ∈ (logs.indexedFramePartitions partition).appends,
    ∀ checkpoint, append.nextCheckpoint = some checkpoint → Placed partition checkpoint
  published : ∀ state, logs.tier = some state → ∀ partition checkpoint,
    (state.tiers partition).latestCheckpoint = some checkpoint →
      Placed partition (recoveredCheckpoint partition checkpoint)

structure StripePlaced (stripe : TelemetryStripeState ι) : Prop where
  logs : LogsPlaced stripe.logs
  signals : ∀ partition checkpoint, stripe.signalTiers partition = some (some checkpoint) →
    Placed partition (recoveredCheckpoint partition checkpoint)

def CheckpointsPlaced (checkpoints : Checkpoints) : Prop :=
  ∀ partition checkpoint, checkpoints partition = some checkpoint → Placed partition checkpoint

/-- What continues a placed checkpoint is placed. -/
theorem CheckpointsPlaced.next {want next : DurableSinkCheckpoint} (h : CheckpointsPlaced cps)
    (hgap : checkpointAllowsLaneGap (cps.actual want.topicPartition) want = true)
    (hle : want.Le next) : Placed want.topicPartition next := by
  have hactual : Placed want.topicPartition (cps.actual want.topicPartition) := by
    cases hcp : cps want.topicPartition with
    | none =>
      rw [actual_of_none hcp]
      exact .refl _
    | some cp =>
      rw [actual_of_some hcp]
      exact h _ cp hcp
  obtain ⟨-, hseq, hoffset⟩ := checkpointAllowsLaneGap_iff.mp hgap
  exact hactual.trans (.trans ⟨hseq.le, hoffset⟩ hle)

theorem CheckpointsPlaced.insert (h : CheckpointsPlaced cps)
    (hlast : Placed last.topicPartition last) : CheckpointsPlaced (cps.insert last) := by
  intro part cp hcp
  by_cases hpart : last.topicPartition = part
  · rw [insert_of_eq hpart] at hcp
    cases hcp
    exact hpart ▸ hlast
  · rw [insert_of_ne hpart] at hcp
    exact h part cp hcp

theorem LogsPlaced.install (h : LogsPlaced logs)
    (hinstalls : Installs dec pack logs append nextId)
    (hnext : Placed pack.next.topicPartition pack.next) :
    LogsPlaced (logs.install pack.topicPartition append nextId) where
  resident part other hmem cp hcp := by
    by_cases hpart : part = pack.topicPartition
    · subst hpart
      simp only [LogStripe.install, update_self, mem_append, mem_singleton] at hmem
      rcases hmem with hmem | rfl
      · exact h.resident _ other hmem cp hcp
      · rw [hinstalls.append_eq] at hcp
        cases hcp
        exact hinstalls.partition_eq ▸ hnext
    · simp only [LogStripe.install, update_of_ne hpart] at hmem
      exact h.resident part other hmem cp hcp
  published := h.published

section Moves

theorem LogsPlaced.published_group (h : LogsPlaced logs) (move : GroupMove checksum logs part) :
    LogsPlaced move.published where
  resident := h.resident
  published state htier other cp hcp := by
    cases htier
    by_cases hother : other = part
    · subst hother
      simp only [update_self, GroupMove.tier, PartitionTier.publish] at hcp
      cases hcp
      obtain ⟨append, happ, hnext⟩ := Option.bind_eq_some_iff.mp move.checkpoint_eq
      exact h.resident _ append (mem_of_getElem? happ) move.checkpoint hnext
    · simp only [update_of_ne hother] at hcp
      exact h.published move.state move.tier_eq other cp hcp

theorem LogsPlaced.drain (h : LogsPlaced logs) (count) : LogsPlaced (logs.drain part count) where
  resident other append hmem := by
    by_cases hother : other = part
    · subst hother
      simp only [LogStripe.drain, update_self] at hmem
      exact h.resident _ append (mem_of_mem_drop hmem)
    · simp only [LogStripe.drain, update_of_ne hother] at hmem
      exact h.resident other append hmem
  published := h.published

theorem LogsPlaced.offload (h : LogsPlaced logs) (checksum : List UInt8 → Digest)
    (attempts : Attempts)
    (force : Bool) : LogsPlaced (logs.offloadIndexedGroups checksum attempts force).2 :=
  LogStripe.offloadIndexedGroups_invariant
    (fun _ _ move h => (LogsPlaced.published_group h move).drain move.count)
    (fun _ _ move _ _ h => LogsPlaced.published_group h move) force h

end Moves

theorem StripePlaced.offloadSignal (h : StripePlaced st) (env) (part)
    (hcp : Placed part cp) : StripePlaced (offloadSignalPartition env part cp st).2 := by
  have hpub : StripePlaced { st with
      signalTiers := update st.signalTiers part
        (some (some ⟨cp.nextPlacementSequence, cp.nextOffset⟩)) } := by
    refine ⟨h.logs, fun other latest hlatest => ?_⟩
    by_cases hother : other = part
    · subst hother
      simp only [update_self] at hlatest
      cases hlatest
      exact hcp
    · simp only [update_of_ne hother] at hlatest
      exact h.signals other latest hlatest
  unfold offloadSignalPartition
  simp only
  split
  · split
    · split
      · exact hpub
      · exact h
      · exact hpub
    · exact h
  · exact h

theorem StripePlaced.indexAndOffload (h : StripePlaced st) (dec) (checksum) (env) (want) (appends)
    {next : DurableSinkCheckpoint} (hnext : Placed next.topicPartition next) :
    StripePlaced (indexAndOffload dec checksum env want appends next st).2 := by
  obtain ⟨logs, hlogs, heq⟩ := indexDurableAppends_invariant (I := LogsPlaced)
    (fun _ _ _ h => ⟨h.resident, h.published⟩) dec env want next appends
    (fun _ _ _ _ _ _ hinstalls h => h.install hinstalls hnext) st h.logs
  unfold Sink.indexAndOffload
  cases hindex : indexDurableAppends dec env want next appends st with
  | mk res st' =>
    rw [hindex] at heq
    cases heq
    cases res with
    | error error => exact ⟨hlogs, h.signals⟩
    | ok =>
      have hoffload := hlogs.offload checksum env.attempts false
      simp only
      cases hpass : logs.offloadIndexedGroups checksum env.attempts false with
      | mk res logs' =>
        rw [hpass] at hoffload
        have hplaced : StripePlaced { st with logs := logs' } := ⟨hoffload, h.signals⟩
        cases res with
        | error error => exact hplaced
        | ok count =>
          simp only
          split
          · exact hplaced.offloadSignal env _ hnext
          · exact hplaced

theorem StripePlaced.flushSignals (h : StripePlaced st) (env)
    (hcps : CheckpointsPlaced cps) (parts) : StripePlaced (flushSignals env cps parts st).2 := by
  induction parts generalizing st with
  | nil => exact h
  | cons part rest ih =>
    unfold Sink.flushSignals
    cases hcp : cps part with
    | none => exact ih h
    | some cp =>
      have hnext := h.offloadSignal env part (hcps part cp hcp)
      simp only
      cases hoffload : offloadSignalPartition env part cp st with
      | mk res st' =>
        rw [hoffload] at hnext
        cases res with
        | error error => exact hnext
        | ok => exact ih hnext

/-- Replaying transactions keeps the stripe and the checkpoints placed. -/
theorem replayTransactions_placed
    (h : replayTransactions dec env txs cps st = .ok (cps', st')) (hadv : ∀ tx ∈ txs, tx.Advances)
    (hcps : CheckpointsPlaced cps) (hst : StripePlaced st) :
    CheckpointsPlaced cps' ∧ StripePlaced st' := by
  induction txs generalizing cps st with
  | nil =>
    cases h
    exact ⟨hcps, hst⟩
  | cons tx rest ih =>
    obtain ⟨hfirst, hrest⟩ := forall_mem_cons.mp hadv
    unfold replayTransactions at h
    simp only at h
    split at h
    · exact ih h hrest hcps hst
    split at h
    · rename_i hgap
      have hnext : Placed tx.next.topicPartition tx.next :=
        hfirst.same_partition ▸ hcps.next hgap ⟨hfirst.sequence_lt.le, hfirst.offset_le⟩
      obtain ⟨middle, hreplay, h⟩ := bind_eq_ok.mp h
      obtain ⟨logs, hlogs, rfl⟩ := replayAppends_invariant (I := LogsPlaced)
        (fun _ _ _ h => ⟨h.resident, h.published⟩)
        (fun _ _ _ _ _ _ hinstalls h => h.install hinstalls hnext) st hst.logs hreplay
      exact ih h hrest (hcps.insert hnext) ⟨hlogs, hst.signals⟩
    · cases h

/-! ## Along a run -/

section Runs

variable {dec : Decoder ι} {hash : Hash} {checksum : List UInt8 → Digest} {conf : SinkConfig}

/-- What holds in every state of a run: the journal holds entries, and checkpoints are placed. -/
def WorldOk (hash : Hash) (config : SinkConfig) : World ι → Prop
  | .down store => (magic.length ≤ config.maxJournalBytes → FileOk hash config store.contents) ∧
    StripePlaced (attachStripe config store)
  | .up sink => (∃ entries, JournalOk hash config sink.journal entries) ∧
    StripePlaced sink.stripe ∧ CheckpointsPlaced sink.checkpoints

/-- Start-up attaches catalogs with placed checkpoints. -/
theorem attachStripe_placed {store : Durable ι}
    (hlogs : ∀ part cp, (store.logTiers part).latestCheckpoint = some cp →
      Placed part (recoveredCheckpoint part cp))
    (hsignals : ∀ part cp, store.signalTiers part = some cp →
      Placed part (recoveredCheckpoint part cp)) :
    StripePlaced (attachStripe conf store) := by
  refine ⟨⟨nofun, fun state htier => ?_⟩, fun part cp hcp => ?_⟩
  · simp only [attachStripe] at htier
    split at htier
    · cases htier
    · cases htier
      exact hlogs
  · simp only [attachStripe] at hcp
    split at hcp
    · exact hsignals part cp (Option.some.inj hcp)
    · cases hcp

theorem worldOk_initial : WorldOk hash conf (World.initial (ι := ι)) :=
  ⟨FileOk.empty, attachStripe_placed nofun nofun⟩

variable {sink : TelemetrySink ι}

/-- What a stripe has published is placed for the next start. -/
theorem StripePlaced.durable (h : StripePlaced sink.stripe) (data) :
    StripePlaced (attachStripe conf (sink.durable data)) := by
  refine attachStripe_placed (fun part cp hcp => ?_) fun part cp hcp =>
    h.signals part cp (Option.join_eq_some_iff.mp hcp)
  cases hlogs : sink.stripe.logs.tier with
  | none =>
    simp only [TelemetrySink.durable, hlogs] at hcp
    cases hcp
  | some state =>
    simp only [TelemetrySink.durable, hlogs] at hcp
    exact h.logs.published state hlogs part cp hcp

/-- The checkpoints start-up begins with are placed. -/
theorem published_placed (h : StripePlaced (attachStripe conf store))
    (hcp : store.published conf part = some cp) : Placed part (recoveredCheckpoint part cp) := by
  unfold Durable.published at hcp
  split at hcp
  · rename_i hmem
    refine h.logs.published ⟨conf.tier, conf.partitionsOf .logs, store.logTiers⟩ ?_ part cp hcp
    simp only [attachStripe]
    rw [if_neg (by intro hempty; simp [isEmpty_iff.mp hempty] at hmem)]
  split at hcp
  · rename_i hmem
    exact h.signals part cp (by simp [attachStripe, hmem, hcp])
  · cases hcp

/-- A start that succeeds opens the journal of the file, and leaves everything in order. -/
theorem WorldOk.restart (h : WorldOk hash conf (.down store))
    (hnew : new dec hash conf env store = .ok sink) : WorldOk hash conf (.up sink) ∧
      ∃ (ents : List (JournalEntry conf.shardId)) (cps : Checkpoints),
        JournalOk hash conf sink.journal ents ∧
        (∀ part, store.journaled hash conf part = sink.journal.checkpoints.actual part) ∧
        (∀ part, cps part = (store.published conf part).map (recoveredCheckpoint part)) ∧
        replayTransactions dec env
          ((transactionsOf ents).insertionSort RecoveredTransaction.Before) cps
          (attachStripe conf store) = .ok (sink.checkpoints, sink.stripe) := by
  obtain ⟨hfile, hplaced⟩ := h
  obtain ⟨txs, cps, hopen, hpub, hreplay⟩ := new_eq_ok hnew
  obtain ⟨_, hmagic, hopened⟩ := bind_eq_ok.mp hopen
  obtain ⟨⟨recovered, cut⟩, hrecover, hopened⟩ := bind_eq_ok.mp hopened
  obtain ⟨jnl, ents, hopen', hok⟩ :=
    (hfile (by simpa using hmagic)).openFile conf.journalSyncEachAppend
  rw [hopen] at hopen'
  obtain ⟨rfl, rfl⟩ := Prod.mk.inj (Except.ok.inj hopen')
  have hpairs := Prod.mk.inj (Except.ok.inj hopened)
  have hadv :
      ∀ tx ∈ (transactionsOf ents).insertionSort RecoveredTransaction.Before, tx.Advances := by
    intro tx hmem
    exact hok.holds.continues.advances tx ((mem_insertionSort _).mp hmem)
  obtain ⟨hcps, hst⟩ := replayTransactions_placed hreplay hadv (fun part cp hcp => by
      rw [hpub] at hcp
      obtain ⟨latest, hlatest, rfl⟩ := Option.map_eq_some_iff.mp hcp
      exact published_placed hplaced hlatest) hplaced
  refine ⟨⟨⟨ents, hok⟩, hst, hcps⟩, ents, cps, hok, ?_, hpub, hreplay⟩
  intro part
  rw [Durable.journaled, hrecover, ← hpairs.1]

theorem WorldOk.apply (h : WorldOk hash conf (.up sink)) (env) (tx) :
    WorldOk hash conf (.up (sink.apply dec hash checksum conf env tx).2) := by
  obtain ⟨⟨ents, hok⟩, hst, hcps⟩ := h
  obtain ⟨entries', hok', -⟩ := hok.append tx
  rw [apply_eq rfl rfl]
  split
  · rename_i hgap
    have hnext : Placed tx.next.topicPartition tx.next :=
      tx.same_partition ▸ hcps.next hgap ⟨tx.advances.le, tx.offset_le⟩
    have hstripe' := hst.indexAndOffload dec checksum env tx.expected tx.appends hnext
    split
    · exact ⟨⟨entries', hok'⟩, hst, hcps⟩
    · exact ⟨⟨entries', hok'⟩, hstripe', hcps⟩
    · exact ⟨⟨entries', hok'⟩, hstripe', CheckpointsPlaced.insert hcps hnext⟩
  · exact ⟨⟨ents, hok⟩, hst, hcps⟩

theorem WorldOk.flush (h : WorldOk hash conf (.up sink)) (env) (parts) :
    WorldOk hash conf (.up (sink.flushObjectTiers checksum env parts).2) := by
  obtain ⟨hok, hst, hcps⟩ := h
  have hoffload := hst.logs.offload checksum env.attempts true
  unfold flushObjectTiers
  cases hpass : sink.stripe.logs.offloadIndexedGroups checksum env.attempts true with
  | mk res logs =>
    rw [hpass] at hoffload
    have hplaced : StripePlaced { sink.stripe with logs } := ⟨hoffload, hst.signals⟩
    cases res with
    | error error => exact ⟨hok, hplaced, hcps⟩
    | ok count => exact ⟨hok, hplaced.flushSignals env hcps parts, hcps⟩

theorem WorldOk.step {w w' : World ι} (h : WorldOk hash conf w)
    (hstep : World.step dec hash checksum conf w ev = some w') : WorldOk hash conf w' := by
  cases w with
  | down store =>
    cases ev with
    | restart env =>
      simp only [World.step] at hstep
      split at hstep
      · cases hstep
        exact (h.restart ‹_›).1
      · cases hstep
    | _ => cases hstep
  | up sink =>
    cases ev with
    | restart env => cases hstep
    | apply tx env =>
      cases hstep
      exact h.apply env tx
    | flush env =>
      cases hstep
      exact h.flush env conf.signalPartitions
    | crash kept =>
      simp only [World.step] at hstep
      split at hstep
      · rename_i hkept
        cases hstep
        obtain ⟨⟨ents, hok⟩, hst, -⟩ := h
        exact ⟨fun _ => hok.crash (hok.holds.synced.trans hkept), hst.durable _⟩
      · cases hstep
    | crashInAppend tx kept =>
      simp only [World.step] at hstep
      split at hstep
      · rename_i hkept
        cases hstep
        obtain ⟨⟨ents, hok⟩, hst, -⟩ := h
        obtain ⟨entries', hok', -⟩ := hok.append tx
        exact ⟨fun _ => hok'.crash (hok.holds.synced.trans hkept.1), hst.durable _⟩
      · cases hstep

/-! ## The next transaction -/

/-- The transaction has a frame, and the frame fits behind those of the journal. -/
def SinkJournal.Fits (hash : Hash) (journal : SinkJournal) (expected : DurableSinkCheckpoint)
    (appends : List DurableAppend) (next : DurableSinkCheckpoint) : Prop :=
  ∃ payload, encodeTransaction expected appends next = .ok payload ∧
    journal.bytes + (frame hash payload).length ≤ journal.maxBytes

/-- The journal accepts a transaction that it does not cover if and only if its last frame allows it
and the new one fits. -/
theorem SinkJournal.append_eq_ok_iff (hash : Hash) {jnl : SinkJournal}
    (appends : List DurableAppend) {next : DurableSinkCheckpoint}
    (hcov : checkpointCovers (jnl.checkpoints.actual want.topicPartition) next = false)
    (hmax : jnl.maxBytes < u64Bound) : (jnl.append hash .done want appends next).1 = .ok () ↔
      checkpointAllowsLaneGap (jnl.checkpoints.actual want.topicPartition) want = true ∧
        jnl.Fits hash want appends next := by
  unfold SinkJournal.append SinkJournal.Fits
  cases encodeTransaction want appends next with
  | error error => simp
  | ok load =>
    simp only [hcov, Bool.false_eq_true, if_false, Except.ok.injEq, exists_eq_left', length_frame]
    split
    · rename_i hgap
      simp only [hgap, true_and]
      cases hadd : checkedAdd jnl.bytes (4 + load.length + checksumBytes) with
      | none =>
        have hover : ¬ jnl.bytes + (4 + load.length + checksumBytes) < u64Bound := fun hlt => by
          rw [checkedAdd_eq_some.mpr ⟨rfl, hlt⟩] at hadd
          cases hadd
        simp only [reduceCtorEq, false_iff]
        omega
      | some sum =>
        obtain ⟨rfl, -⟩ := checkedAdd_eq_some.mp hadd
        simp only
        split
        · simp only [reduceCtorEq, false_iff]
          omega
        · simp only [SinkJournal.write, true_iff]
          omega
    · rename_i hgap
      simp [hgap]

/-- The checkpoint recovered for a partition is not before the one of its last journal frame, and
the two are at the same placement sequence exactly if no published checkpoint is ahead of the
journal. -/
theorem WorldOk.recovered (h : WorldOk hash conf (.down store))
    (hnew : new dec hash conf env store = .ok sink) (part) :
    (sink.journal.checkpoints.actual part).nextPlacementSequence ≤
        (sink.checkpoints.actual part).nextPlacementSequence ∧
      (checkpointAllowsLaneGap (sink.journal.checkpoints.actual part)
        (sink.checkpoints.actual part) = true ↔
        ∀ cp, store.published conf part = some cp → cp.nextPlacementSequence ≤
            (store.journaled hash conf part).nextPlacementSequence) := by
  obtain ⟨-, ents, cps, hok, hjournaled, hpub, hreplay⟩ := h.restart hnew
  have hadv := hok.holds.continues.advances
  have hchain := hok.holds.continues.chain part
  have hreplays := replayTransactions_replays hreplay
    (fun tx hmem => hadv tx ((mem_insertionSort _).mp hmem)) part
  rw [filter_insertionSort (hchain.pairwise_before fun tx hmem => by
    simpa using (mem_filter.mp hmem).2)] at hreplays
  -- the journal's own view of the partition is the end of the chain its frames form
  have htip : sink.journal.checkpoints.actual part =
      actual (insertAll (fun _ => none)
        ((transactionsOf ents).map (·.next))) part := by
    rw [hok.holds.checkpoints, lastCheckpoints]
  rw [← htip] at hchain
  have hstart : Placed part (cps.actual part) := by
    cases hlatest : store.published conf part with
    | none =>
      rw [actual_of_none (by rw [hpub, hlatest]; rfl)]
      exact .refl _
    | some cp =>
      rw [actual_of_some (by rw [hpub, hlatest]; rfl)]
      exact published_placed h.2 hlatest
  have hseq := hreplays.sequence_le fun tx hmem =>
    hadv tx (mem_of_mem_filter hmem)
  have hpart : (sink.journal.checkpoints.actual part).topicPartition = part :=
    hchain.topicPartition.trans (StreamEngine.topicPartition_initial part)
  rw [hjournaled]
  rcases hreplays.cases_of_chain hchain hstart with hlast | ⟨hlast, hle⟩
  · rw [hlast] at hseq ⊢
    refine ⟨le_rfl, iff_of_true ?_ fun cp hlatest => ?_⟩
    · exact checkpointAllowsLaneGap_iff.mpr ⟨rfl, rfl, le_rfl⟩
    · rwa [actual_of_some (by rw [hpub, hlatest]; rfl)] at hseq
  · rw [hlast]
    refine ⟨hle.1, ?_⟩
    rw [checkpointAllowsLaneGap_iff, hpart]
    cases hlatest : store.published conf part with
    | none =>
      have hnone : cps part = none := by rw [hpub, hlatest]; rfl
      rw [actual_of_none hnone] at hle ⊢
      refine iff_of_true ⟨(StreamEngine.topicPartition_initial part).symm, ?_, hle.2⟩ ?_
      · exact le_antisymm hle.1 hchain.le.1
      · intro cp hother
        cases hother
    | some cp =>
      have hsome : cps part = some (recoveredCheckpoint part cp) := by
        rw [hpub, hlatest]
        rfl
      rw [actual_of_some hsome] at hle ⊢
      refine ⟨fun hgap _ hother => ?_, fun hahead => ⟨rfl, ?_, hle.2⟩⟩
      · cases hother
        exact hgap.2.1.ge
      · exact le_antisymm hle.1 (hahead cp rfl)

end Runs

end Engine

open Sample

/-- A group is published, and the process goes down once the journal file was synced. -/
def sampleSynced : List (Event sampleSinkConfig.shardId) :=
  [.restart sampleEnv, .apply (sampleTransaction 0) sampleEnv, .crash 4096]

/-- A group is published, and the process goes down before the frame was synced: only the header of
the journal is left. -/
def sampleLost : List (Event sampleSinkConfig.shardId) :=
  [.restart sampleEnv, .apply (sampleTransaction 0) sampleEnv, .crash 8]

/-- Where a run of the small instance goes down, and the sink that starts from there. -/
def sampleRestart (events : List (Event sampleSinkConfig.shardId)) :
    Option (Durable Unit × TelemetrySink Unit) := do
  let world ← Run.run sampleStep World.initial events
  let store ← world.store
  let sink ← (new sampleDecoder sampleHash sampleSinkConfig sampleEnv store).toOption
  return (store, sink)

theorem sampleRestart_eq_some (h : sampleRestart evs = some (store, sink)) :
    Run.Reaches sampleStep World.initial (.down store) ∧
      new sampleDecoder sampleHash sampleSinkConfig sampleEnv store = .ok sink := by
  obtain ⟨w, hrun, h⟩ := Option.bind_eq_some_iff.mp h
  obtain ⟨store', hstore, h⟩ := Option.bind_eq_some_iff.mp h
  obtain ⟨sink', hsink, h⟩ := Option.bind_eq_some_iff.mp h
  obtain ⟨rfl, rfl⟩ := Prod.mk.inj (Option.some.inj h)
  refine ⟨⟨evs, by rw [hrun, World.eq_down_of_store hstore]⟩, ?_⟩
  cases hnew : new sampleDecoder sampleHash sampleSinkConfig sampleEnv store' with
  | error error =>
    rw [hnew] at hsink
    cases hsink
  | ok sink =>
    rw [hnew] at hsink
    exact congrArg Except.ok (Option.some.inj hsink)

/-- The next transaction continues the recovered checkpoint, fits the journal, and is indexed and
offloaded without an error. -/
def SampleNext (sink : TelemetrySink Unit)
    (transaction : DurableTransaction sampleSinkConfig.shardId) (payload : List UInt8) : Prop :=
  transaction.expected = sink.checkpoints.actual transaction.expected.topicPartition ∧
    encodeTransaction transaction.expected transaction.appends transaction.next = .ok payload ∧
    sink.journal.bytes + (frame sampleHash payload).length ≤ sink.journal.maxBytes ∧
    (indexAndOffload sampleDecoder sampleChecksum sampleEnv transaction.expected transaction.appends
      transaction.next sink.stripe).1 = .ok ()

instance (sink : TelemetrySink Unit) (transaction : DurableTransaction sampleSinkConfig.shardId)
    (payload : List UInt8) : Decidable (SampleNext sink transaction payload) :=
  inferInstanceAs (Decidable (_ ∧ _))

/-- The encoding of a transaction of the small instance. -/
def samplePayload (offset : Fin 16) : List UInt8 :=
  let transaction := sampleTransaction offset
  ((encodeTransaction transaction.expected transaction.appends transaction.next).toOption).getD []

end ShardTelemetry.Sink
