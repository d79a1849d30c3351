import ShardTelemetry.Lib.Run
import ShardTelemetry.Sink.Recovery
import ShardTelemetry.Sink.StripeSteps

/-!
# Runs of a sink

The sink of one shard is down, with only what is durable, or up.  It starts from what is durable,
applies transactions and flushes its object tiers, and may crash at any time: between two calls, or
while it writes a frame of the journal.  A crash loses any part of the journal that was not synced.

A crash in the middle of a call that has come past the journal needs no event of its own: such a
call leaves behind what it leaves behind when it fails at the same point.
-/

namespace ShardTelemetry.Sink

open SinkJournal TelemetrySignal

open Tier (TierCheckpoint Digest)

variable {ι : Type}

inductive World (ι : Type) where
  | down (store : Durable ι)
  | up (sink : TelemetrySink ι)

/-- Nothing was ever written. -/
def World.initial : World ι := .down ⟨[], fun _ => ⟨[], none, 0⟩, fun _ => none⟩

inductive Event (shardId : Nat) where
  | restart (env : Env)
  | apply (transaction : DurableTransaction shardId) (env : Env)
  | flush (env : Env)
  /-- Crash; the file keeps this many bytes. -/
  | crash (kept : Nat)
  /-- Crash while the frame of a transaction is written. -/
  | crashInAppend (transaction : DurableTransaction shardId) (kept : Nat)

/-- What is left of a sink whose journal file holds these bytes. -/
def TelemetrySink.durable (sink : TelemetrySink ι) (contents : List UInt8) : Durable ι where
  contents
  logTiers := match sink.stripe.logs.tier with
    | some state => state.tiers
    | none => fun _ => ⟨[], none, 0⟩
  signalTiers partition := (sink.stripe.signalTiers partition).join

section Step

variable [StreamEngine] (dec : Decoder ι) (hash : Hash) (checksum : List UInt8 → Digest)
  (conf : SinkConfig)

def TelemetrySink.apply (env : Env) (transaction : DurableTransaction conf.shardId)
    (sink : TelemetrySink ι) : Except EngineError DurableSinkApply × TelemetrySink ι :=
  sink.applyDurableAppends dec hash checksum env .done transaction.expected transaction.appends
    transaction.next

/-- One event.  The writes of the journal succeed; a sink that cannot start stays down. -/
def World.step : World ι → Event conf.shardId → Option (World ι)
  | .down store, .restart env =>
    match TelemetrySink.new dec hash conf env store with
    | .ok sink => some (.up sink)
    | .error _ => none
  | .up sink, .apply transaction env =>
    some (.up (sink.apply dec hash checksum conf env transaction).2)
  | .up sink, .flush env =>
    some (.up (sink.flushObjectTiers checksum env conf.signalPartitions).2)
  | .up sink, .crash kept =>
    if sink.journal.file.synced ≤ kept then
      some (.down (sink.durable (sink.journal.file.contents.take kept)))
    else none
  | .up sink, .crashInAppend transaction kept =>
    if sink.journal.file.synced ≤ kept ∧ checkpointAllowsLaneGap
        (sink.checkpoints.actual transaction.expected.topicPartition) transaction.expected then
      let journal := (sink.journal.append hash .done transaction.expected transaction.appends
        transaction.next).2
      some (.down (sink.durable (journal.file.contents.take kept)))
    else none
  | _, _ => none

end Step

/-! ## What start-up finds -/

/-- The checkpoint in the published root of a partition's catalog. -/
def Durable.published (store : Durable ι) (conf : SinkConfig) (partition : TopicPartition) :
    Option TierCheckpoint :=
  if partition ∈ conf.partitionsOf .logs then (store.logTiers partition).latestCheckpoint
  else if partition ∈ conf.signalPartitions then store.signalTiers partition
  else none

/-- The checkpoint of the last complete journal frame of a partition. -/
def Durable.journaled [StreamEngine] (store : Durable ι) (hash : Hash) (conf : SinkConfig)
    (partition : TopicPartition) : DurableSinkCheckpoint :=
  match recover hash (initialized store.contents) conf.shardId conf.maxJournalBytes with
  | .ok (transactions, _) => (lastCheckpoints transactions).actual partition
  | .error _ => StreamEngine.initial partition

theorem mergeRecoveredCheckpoint_eq_ok (h : mergeRecoveredCheckpoint cps cand = .ok res)
    (hold : cps cand.topicPartition = none ∨ cps cand.topicPartition = some cand) :
    res = cps.insert cand := by
  unfold mergeRecoveredCheckpoint at h
  rcases hold with hold | hold
  · rw [hold] at h
    exact (Except.ok.inj h).symm
  · rw [hold] at h
    have hcov : checkpointCovers cand cand = true := by
      simpa using DurableSinkCheckpoint.Le.refl cand
    simp only [hcov, if_true] at h
    rw [← Except.ok.inj h, Checkpoints.insert, ← hold, Function.update_eq_self]

/-- Merging the checkpoints that catalogs report records exactly those. -/
theorem mergeRecoveredCheckpoints_reported
    (h : mergeRecoveredCheckpoints cps (reportedCheckpoints latest parts) = .ok res)
    (hold : ∀ part ∈ parts, cps part = none ∨
      cps part = (latest part).map (recoveredCheckpoint part)) (part) : res part =
      if part ∈ parts ∧ latest part ≠ none then (latest part).map (recoveredCheckpoint part)
      else cps part := by
  induction parts generalizing cps with
  | nil =>
    cases h
    simp
  | cons first rest ih =>
    cases hlast : latest first with
    | none =>
      have hreported :
          reportedCheckpoints latest (first :: rest) = reportedCheckpoints latest rest := by
        simp [reportedCheckpoints, hlast]
      rw [hreported] at h
      rw [ih h (List.forall_mem_cons.mp hold).2]
      by_cases hfirst : part = first
      · subst hfirst
        simp [hlast]
      · simp [hfirst]
    | some cp =>
      have hreported : reportedCheckpoints latest (first :: rest) =
          recoveredCheckpoint first cp :: reportedCheckpoints latest rest := by
        simp [reportedCheckpoints, hlast]
      rw [hreported] at h
      obtain ⟨middle, hmerge, h⟩ := bind_eq_ok.mp h
      have hfirst := hold first List.mem_cons_self
      rw [hlast] at hfirst
      obtain rfl := mergeRecoveredCheckpoint_eq_ok hmerge hfirst
      have hinsert : ∀ other, cps.insert (recoveredCheckpoint first cp) other =
          if other = first then some (recoveredCheckpoint first cp)
          else cps other := by
        intro other
        by_cases hother : other = first
        · rw [if_pos hother, Checkpoints.insert_of_eq hother.symm]
        · rw [if_neg hother, Checkpoints.insert_of_ne (Ne.symm hother)]
      rw [ih h, hinsert]
      · by_cases hpart : part = first
        · subst hpart
          simp [hlast]
        · simp [hpart]
      · intro other hmem
        rw [hinsert]
        by_cases hother : other = first
        · subst hother
          simp [hlast]
        · rw [if_neg hother]
          exact hold other (.tail _ hmem)

/-- A trace or metric partition is not a log partition. -/
theorem SinkConfig.not_mem_logs_of_mem_signals {conf : SinkConfig}
    (h : part ∈ conf.signalPartitions) : part ∉ conf.partitionsOf .logs := by
  intro hlogs
  have hlogs : part.topicId = logs.topicId := by
    simpa using (List.mem_filter.mp hlogs).2
  rcases List.mem_append.mp h with htraces | hmetrics
  · have htraces : part.topicId = traces.topicId := by
      simpa using (List.mem_filter.mp htraces).2
    rw [hlogs] at htraces
    cases htraces
  · have hmetrics : part.topicId = metrics.topicId := by
      simpa using (List.mem_filter.mp hmetrics).2
    rw [hlogs] at hmetrics
    cases hmetrics

/-- Start-up opens the journal, and replays the journaled transactions from the published
checkpoints. -/
theorem TelemetrySink.new_eq_ok [StreamEngine] {dec : Decoder ι} {hash : Hash} {conf : SinkConfig}
    (h : TelemetrySink.new dec hash conf env store = .ok sink) :
    ∃ (txs : List RecoveredTransaction) (cps : Checkpoints),
      openFile hash store.contents conf.shardId conf.maxJournalBytes
        conf.journalSyncEachAppend = .ok (sink.journal, txs) ∧
      (∀ part, cps part = (store.published conf part).map (recoveredCheckpoint part)) ∧
      replayTransactions dec env (txs.insertionSort RecoveredTransaction.Before)
        cps (attachStripe conf store) = .ok (sink.checkpoints, sink.stripe) := by
  obtain ⟨_, -, h⟩ := bind_eq_ok.mp h
  obtain ⟨logs, hlogs, h⟩ := bind_eq_ok.mp h
  obtain ⟨⟨journal, txs⟩, hopen, h⟩ := bind_eq_ok.mp h
  obtain ⟨cps, hsignals, h⟩ := bind_eq_ok.mp h
  obtain ⟨⟨cps', stripe⟩, hreplay, h⟩ := bind_eq_ok.mp h
  cases h
  refine ⟨txs, cps, hopen, fun part => ?_, hreplay⟩
  have hlogs' := mergeRecoveredCheckpoints_reported hlogs fun _ _ => .inl rfl
  rw [mergeRecoveredCheckpoints_reported hsignals (fun other hmem => .inl ?_) part, hlogs',
    Durable.published]
  · by_cases hlog : part ∈ conf.partitionsOf .logs
    · have hsignal : part ∉ conf.signalPartitions := fun hmem =>
        SinkConfig.not_mem_logs_of_mem_signals hmem hlog
      cases (store.logTiers part).latestCheckpoint <;> simp [hlog, hsignal]
    · cases store.signalTiers part <;> simp [hlog]
  · rw [hlogs']
    simp [SinkConfig.not_mem_logs_of_mem_signals hmem]

/-! ## What applying a transaction does -/

/-- A transaction of the engine is refused for its checkpoint, or it goes to the journal and then to
the stripe. -/
theorem TelemetrySink.apply_eq [StreamEngine] {dec : Decoder ι} {hash : Hash}
    {checksum : List UInt8 → Digest} {conf : SinkConfig} {tx : DurableTransaction conf.shardId}
    {sink : TelemetrySink ι}
    {wrote indexed : TelemetryResult Unit} {journal : SinkJournal} {stripe : TelemetryStripeState ι}
    (hwritten : sink.journal.append hash .done tx.expected tx.appends tx.next = (wrote, journal))
    (hindexed : indexAndOffload dec checksum env tx.expected tx.appends
      tx.next sink.stripe = (indexed, stripe)) :
    sink.apply dec hash checksum conf env tx =
      if checkpointAllowsLaneGap (sink.checkpoints.actual tx.expected.topicPartition)
          tx.expected then
        match wrote, indexed with
        | .error error, _ => (.error (.invalidConfig error), { sink with journal })
        | .ok (), .error error => (.error (.invalidConfig error), { sink with journal, stripe })
        | .ok (), .ok () =>
          (.ok .applied, ⟨journal, stripe, sink.checkpoints.insert tx.next⟩)
      else
        (.ok (.checkpointConflict (sink.checkpoints.actual tx.expected.topicPartition)), sink) := by
  have howned : (tx.appends.any fun append =>
      decide (append.topicPartition ≠ tx.expected.topicPartition)) = false := by
    rw [List.any_eq_false]
    intro append hmem
    simpa using (tx.owned append hmem).1
  unfold TelemetrySink.apply TelemetrySink.applyDurableAppends
  rw [if_neg (by simp [tx.same_partition]), howned]
  simp only [Bool.false_eq_true, if_false, hwritten, hindexed]
  split
  · cases wrote with
    | error error => rfl
    | ok => cases indexed <;> rfl
  · rfl

/-! ## The journal along a run -/

section Journal

variable [StreamEngine] {hash : Hash}

/-- The journal of a running sink: it holds entries and respects its bound. -/
structure JournalOk (hash : Hash) (config : SinkConfig) (journal : SinkJournal)
    (entries : List (JournalEntry config.shardId)) : Prop where
  holds : journal.Holds hash entries
  length_le : journal.file.contents.length ≤ config.maxJournalBytes
  maxBytes_eq : journal.maxBytes = config.maxJournalBytes

/-- The file of a sink that is down: a journal cut anywhere behind its header. -/
def FileOk (hash : Hash) (conf : SinkConfig) (contents : List UInt8) : Prop :=
  ∃ journal entries count, JournalOk hash conf journal entries ∧ magic.length ≤ count ∧
    initialized contents = journal.file.contents.take count

/-- An append keeps the entries or adds the one of its transaction. -/
theorem JournalOk.append (h : JournalOk hash conf journal ents)
    (tx : DurableTransaction conf.shardId) :
    ∃ entries',
      JournalOk hash conf (journal.append hash .done tx.expected tx.appends tx.next).2 entries' ∧
      (entries' = ents ∨ ∃ entry, entries' = ents ++ [entry] ∧
        entry.transaction = tx.recovered) := by
  obtain ⟨error, heq⟩ | ⟨heq, -⟩ | ⟨load, jnl', heq, hgap, hencode, hext⟩ :=
    journal.append_cases hash tx.expected tx.appends tx.next
  · exact ⟨ents, by rw [heq]; exact h, .inl rfl⟩
  · exact ⟨ents, by rw [heq]; exact h, .inl rfl⟩
  · refine ⟨_, ?_, .inr ⟨tx.entry hencode, rfl, rfl⟩⟩
    rw [heq]
    refine ⟨h.holds.extend hencode hgap hext, ?_, hext.maxBytes.trans h.maxBytes_eq⟩
    rw [← h.maxBytes_eq]
    have hbytes := (h.holds.extend hencode hgap hext).bytes
    rw [← hbytes]
    exact hext.fits

/-- What a crash leaves of a journal file. -/
theorem JournalOk.crash (h : JournalOk hash conf journal ents) (hcount : magic.length ≤ count) :
    FileOk hash conf (journal.file.contents.take count) := by
  refine ⟨journal, ents, count, h, hcount, ?_⟩
  have hne : (journal.file.contents.take count).isEmpty = false := by
    rw [h.holds.contents, List.take_append, List.take_of_length_le hcount]
    rfl
  rw [initialized, hne]
  rfl

/-- A journal file that was never written is fine. -/
theorem FileOk.empty (hmax : magic.length ≤ conf.maxJournalBytes) : FileOk hash conf [] := by
  have hcont :
    Continues (fun _ => none) (transactionsOf ([] : List (JournalEntry conf.shardId))) := trivial
  refine ⟨.opened hash [] conf.maxJournalBytes true, [], magic.length,
    ⟨opened_holds hcont _ _, ?_, rfl⟩, le_rfl, ?_⟩
  · simpa [opened, frames] using hmax
  · simp [initialized, opened, frames]

/-- Opening the file of a sink that is down recovers the entries of its complete frames. -/
theorem FileOk.openFile (h : FileOk hash conf data) (sync) :
    ∃ (journal : SinkJournal) (ents : List (JournalEntry conf.shardId)),
      openFile hash data conf.shardId conf.maxJournalBytes sync =
        .ok (journal, transactionsOf ents) ∧
      JournalOk hash conf journal ents := by
  obtain ⟨journal, ents, count, hok, hcount, hfile⟩ := h
  obtain ⟨kept, hbytes, hcont, hopen⟩ := openFile_take hok.holds hcount hok.length_le sync hfile
  exact ⟨_, ents.take kept, hopen, opened_holds hcont _ _, hbytes, rfl⟩

end Journal

/-! ## A small instance -/

open Sample

/-- The durable state of a sink that is down. -/
def World.store : World ι → Option (Durable ι)
  | .down store => some store
  | .up _ => none

theorem World.eq_down_of_store {w : World ι} {store : Durable ι}
    (h : w.store = some store) : w = .down store := by
  cases w with
  | down other => exact congrArg World.down (Option.some.inj h)
  | up sink => cases h

/-- One log partition. -/
def samplePartition : TopicPartition := ⟨logs.topicId, 0⟩

theorem samplePartition_inRange {sequence : Nat} (hseq : sequence < 64)
    (hoffset : offset < 64) :
    DurableSinkCheckpoint.InRange ⟨samplePartition, sequence, offset⟩ := by
  have htopic : samplePartition.topicId < 2 ^ 128 := by decide
  have hpart : samplePartition.partitionId < 2 ^ 32 := by decide
  refine ⟨htopic, hpart, ?_, ?_⟩
  · show sequence < 2 ^ 64
    omega
  · show offset < 2 ^ 64
    omega

/-- Every payload is a log envelope around a pack of one frame with one record. -/
def sampleDecoder : Decoder Unit where
  frames _ payload _ recordCount := .ok [⟨0, 7, recordCount, payload.length, 1, 1, payload, ()⟩]
  isEncoded payload := !payload.isEmpty
  view _ payload := .ok ⟨.logs, "acme", 1, payload⟩

def sampleChecksum (_ : List UInt8) : Digest := 0

/-- A journal that syncs in batches, and groups that are published as soon as they hold a byte. -/
def sampleSinkConfig : SinkConfig where
  shardId := 0
  maxJournalBytes := 4096
  maxJournalBytes_lt := by decide
  journalSyncEachAppend := false
  tier := ⟨1, 64, 8, 8, 4096, 64, 0, 1⟩
  partitions := [samplePartition]

/-- Every attempt completes. -/
def sampleEnv : Env := ⟨fun _ _ => .completes, fun _ _ => .ok (), fun _ => none⟩

/-- The transaction with one record at the offset. -/
def sampleTransaction (offset : Fin 16) : DurableTransaction sampleSinkConfig.shardId where
  expected := ⟨samplePartition, offset, offset⟩
  appends := [⟨0, ⟨samplePartition.topicId, samplePartition.partitionId, offset, 1⟩, [0], none⟩]
  next := ⟨samplePartition, offset + 1, offset + 1⟩
  same_partition := rfl
  owned := by simp [DurableAppend.topicPartition, sampleSinkConfig]
  advances := by simp
  offset_le := by simp
  expected_inRange := samplePartition_inRange (by omega) (by omega)
  next_inRange := samplePartition_inRange (by omega) (by omega)
  shard_inRange := by decide
  offsets_inRange := by
    simp only [List.mem_singleton, forall_eq]
    omega

/-- One event of the small instance. -/
abbrev sampleStep : World Unit → Event sampleSinkConfig.shardId → Option (World Unit) :=
  World.step sampleDecoder sampleHash sampleChecksum sampleSinkConfig

end ShardTelemetry.Sink
