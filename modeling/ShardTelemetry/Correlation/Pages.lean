import Mathlib.Data.List.Flatten
import ShardTelemetry.Correlation.Postings

/-!
# Pages of correlated records

A stripe collects addresses from its postings, its logs and its published blocks, and each of the
three looks at the page that is asked for in its own way.  On every page the answer of a stripe
settles to the first of all that it has for the query (`settle_collected`).
-/

namespace ShardTelemetry.Correlation

open Query List Settle
open Bool hiding and_assoc or_assoc
open Settle (settle)

variable {setting : Setting}

/-! ## The collected addresses -/

/-- The addresses that the published blocks of a signal contribute. -/
def publishedRefs (setting : Setting) (blocks : List TierBlock) (query : CorrelationQuery)
    (signal : TelemetrySignal) : List TelemetryRecordRef :=
  if asksBlocks query signal && setting.tiered then
    (blocks.filter fun block => block.signal = signal && block.mayMatch query).flatMap
      (·.found query)
  else []

/-- All that a stripe collects for a query. -/
def collected (setting : Setting) (stripe : StripeState) (query : CorrelationQuery) :
    List TelemetryRecordRef :=
  stripe.correlations.queryInto query ++ correlatedLogs setting stripe.logs query ++
    publishedRefs setting stripe.blocks query .traces ++
      publishedRefs setting stripe.blocks query .metrics

/-- Whether reading the blocks of a signal succeeds. -/
def rangeAccepted (setting : Setting) (query : CorrelationQuery) (signal : TelemetrySignal) :
    Bool :=
  !(asksBlocks query signal && setting.tiered) || validRange query

/-- The query has a limit and a constraint. -/
def active (query : CorrelationQuery) : Bool :=
  !(query.limit = 0 || (query.traceId.isNone && query.resourceId.isNone && query.scopeId.isNone &&
    query.attributes.isEmpty))

theorem readBlocks_eq (blocks) (q) (signal) :
    readBlocks setting blocks q signal = (do
      ensure (rangeAccepted setting q signal)
        (.invalidQuery "tier query range starts after its end")
      return if asksBlocks q signal && setting.tiered then
        blocks.filter fun block => block.signal = signal && block.mayMatch q else []) := by
  have read :
      (candidateGroups (setting.layout (blocks.filter (·.signal = signal))) signal q).flatMap
      (·.filter (·.mayMatch q)) = blocks.filter fun block =>
        block.signal = signal && block.mayMatch q := by
    rw [flatMap_candidateGroups, setting.flatten_layout, filter_filter]
    · exact filter_congr fun block _ => Bool.and_comm ..
    · rw [setting.flatten_layout]
      exact fun block mem => of_decide_eq_true (mem_filter.mp mem).2
  unfold readBlocks rangeAccepted
  dsimp only
  rw [read]
  cases asksBlocks q signal && setting.tiered <;> rfl

/-- The answer of a stripe settles what it collected. -/
theorem queryCorrelationStripe_eq (st) (q) :
    queryCorrelationStripe setting st q =
      if active q then do
        ensure (rangeAccepted setting q .traces)
          (.invalidQuery "tier query range starts after its end")
        ensure (rangeAccepted setting q .metrics)
          (.invalidQuery "tier query range starts after its end")
        return settle q.after q.limit (collected setting st q)
      else return [] := by
  have found : ∀ signal, publishedRefs setting st.blocks q signal =
      (if asksBlocks q signal && setting.tiered then
        st.blocks.filter fun block => block.signal = signal && block.mayMatch q else []).flatMap
          (·.found q) := by
    intro signal
    unfold publishedRefs
    split <;> rfl
  unfold queryCorrelationStripe active
  cases (q.limit = 0 || (q.traceId.isNone && q.resourceId.isNone && q.scopeId.isNone &&
      q.attributes.isEmpty) : Bool) with
  | true => rfl
  | false =>
    rw [readBlocks_eq, readBlocks_eq]
    cases rangeAccepted setting q .traces with
    | false => rfl
    | true =>
      cases rangeAccepted setting q .metrics with
      | false => rfl
      | true =>
        show Except.ok (settle _ _ _) = Except.ok (settle _ _ _)
        rw [settle_foldl, ← settle_settle_append, settle_foldl,
          settle_settle_append]
        unfold collected
        rw [found, found]

/-! ## Published records -/

variable {block : TierBlock} {record : LogRecord} {ref : TelemetryRecordRef}
  {after : Option TelemetryRecordRef} {limit : Nat}

section

variable {record : SignalRecord} (member : record ∈ block.records)
include member

theorem contains_of_matches (met : matchesCorrelation q record = true) (asked : key ∈ queryKeys q) :
    block.correlationFilter.contains q.tenant key = true ∨ block.signal = .traces ∧
        ∃ id, key = .trace id ∧ block.minSignalIdentity ≤ id ∧ id ≤ block.maxSignalIdentity := by
  obtain ⟨tenant, visited⟩ := and_eq_true_iff.mp met
  have visited := all_eq_true.mp visited key asked
  rw [← of_decide_eq_true tenant]
  exact block.covers record member key (contains_iff_mem.mp visited)

/-- A block with a record that matches is read. -/
theorem mayMatch_of_matches (time : correlationTimeMatches q record.timestampUnixNanos = true)
    (met : matchesCorrelation q record = true) : block.mayMatch q = true := by
  obtain ⟨lower, upper⟩ := block.within record member
  obtain ⟨start, finish⟩ := and_eq_true_iff.mp time
  have covered : ∀ key ∈ queryKeys q, _ := fun _ asked => contains_of_matches member met asked
  unfold TierBlock.mayMatch BlockSummary.mayMatch
  rw [and_eq_true, and_eq_true]
  refine ⟨⟨?_, ?_⟩, ?_⟩
  · cases bound : q.startTimeUnixNanos with
    | none => rfl
    | some bound' =>
      rw [bound] at start
      exact decide_eq_true (le_trans (of_decide_eq_true start) upper)
  · cases bound : q.endTimeUnixNanos with
    | none => rfl
    | some bound' =>
      rw [bound] at finish
      exact decide_eq_true (le_trans lower (of_decide_eq_true finish))
  · -- only a block of traces may leave the filter aside, and only for traces in its range
    have filtered : block.signal ≠ .traces → block.correlationFilter.mayMatch q = true := by
      intro other
      apply all_eq_true.mpr
      intro key asked
      exact (covered key asked).resolve_right fun traces => other traces.1
    cases signal : block.signal with
    | logs => exact filtered (by rw [signal]; exact nofun)
    | metrics => exact filtered (by rw [signal]; exact nofun)
    | traces =>
      apply all_eq_true.mpr
      intro key asked
      obtain held | ⟨-, id, rfl, lower, upper⟩ := covered key asked
      · cases key with
        | trace id => exact or_eq_true_iff.mpr (Or.inr held)
        | _ => exact held
      · show (decide _ && decide _ || _) = true
        rw [decide_eq_true lower, decide_eq_true upper]
        rfl

end

/-- A block that is not read has no answers, so reading all blocks gives the same ones in the same
order. -/
theorem flatMap_found_filter (blocks : List TierBlock) (q) :
    (blocks.filter (·.mayMatch q)).flatMap (·.found q) = blocks.flatMap (·.found q) := by
  refine flatMap_filter_of_nil fun block _ skipped => ?_
  refine map_eq_nil_iff.mpr (filter_eq_nil_iff.mpr fun record held met => ?_)
  obtain ⟨time, met⟩ := and_eq_true_iff.mp met
  rw [mayMatch_of_matches held time met] at skipped
  cases skipped

theorem mem_publishedRefs :
    ref ∈ publishedRefs setting blocks q signal ↔ (asksBlocks q signal && setting.tiered) = true ∧
        ∃ record, record.tenant = q.tenant ∧
          (∃ block ∈ blocks, block.signal = signal ∧ record ∈ block.records) ∧
          correlationTimeMatches q record.timestampUnixNanos = true ∧
          matchesCorrelation q record = true ∧ record.recordRef = ref := by
  unfold publishedRefs
  split
  · next asked =>
    rw [mem_flatMap]
    constructor
    · rintro ⟨block, read, found⟩
      obtain ⟨member, kept⟩ := mem_filter.mp read
      obtain ⟨record, held, eq⟩ := mem_map.mp found
      obtain ⟨held, acc⟩ := mem_filter.mp held
      obtain ⟨time, met⟩ := and_eq_true_iff.mp acc
      have tenant := of_decide_eq_true (and_eq_true_iff.mp met).1
      have signal := of_decide_eq_true (and_eq_true_iff.mp kept).1
      exact ⟨asked, record, tenant, ⟨block, member, signal, held⟩, time, met, eq⟩
    · rintro ⟨-, record, -, ⟨block, member, rfl, held⟩, time, met, rfl⟩
      refine ⟨block, mem_filter.mpr ⟨member, ?_⟩, mem_map_of_mem (mem_filter.mpr ⟨held, ?_⟩)⟩
      · rw [mayMatch_of_matches held time met, decide_eq_true rfl]
        rfl
      · rw [time, met]
        rfl
  · next unasked => exact ⟨nofun, fun h => absurd h.1 unasked⟩

/-! ## Pages -/

/-- The same constraints, on another page. -/
def page (query : CorrelationQuery) (limit : Nat) (after : Option TelemetryRecordRef) :
    CorrelationQuery :=
  { query with limit, after }

/-- An address behind another one is not of an earlier signal. -/
theorem signal_le_of_lt {log : TelemetryRecordRef} (h : ref < log) :
    ref.signal.number ≤ log.signal.number := by
  obtain less | ⟨same, -⟩ := Prod.Lex.lt_iff.mp h
  · exact le_of_lt less
  · exact le_of_eq same

/-- On a page, the blocks contribute what comes after the given address. -/
theorem settle_publishedRefs (blocks) (q) (limit after signal) :
    settle after limit (publishedRefs setting blocks (page q limit after) signal) =
      settle after limit (publishedRefs setting blocks (page q 1 none) signal) := by
  refine settle_congr fun ref later => ?_
  rw [mem_publishedRefs, mem_publishedRefs]
  refine and_congr_left fun ⟨record, _, ⟨block, member, eq, held⟩, _, _, same⟩ => ?_
  have behind : after.all (·.signal.number ≤ signal.number) = true := by
    rw [Option.all_eq_true] at later ⊢
    intro start at'
    have le := signal_le_of_lt (of_decide_eq_true (later start at'))
    rw [← same, block.signals record held, eq] at le
    exact decide_eq_true le
  simp [asksBlocks, page, behind]

/-! ## Logs -/

/-- The addresses of the logs of a stripe. -/
def logRefs (logs : List LogAppend) : List TelemetryRecordRef :=
  logs.flatMap fun append => append.records.map (logRef append.topicPartition)

/-- The logs of a partition that meet the constraints of a query. -/
def matchingLogs (setting : Setting) (logs : List LogAppend) (query : CorrelationQuery)
    (partition : TopicPartition) : List LogRecord :=
  (logRecords logs partition).filter ((logQuery query partition none).matchesRecord setting.engine)

/-- The addresses that the logs contribute. -/
def loggedRefs (setting : Setting) (logs : List LogAppend) (query : CorrelationQuery) :
    List TelemetryRecordRef :=
  if asksLogs query then (askedPartitions setting query).flatMap fun partition =>
    (matchingLogs setting logs query partition).map (logRef partition)
  else []

variable {logs : List LogAppend} {part : TopicPartition}

/-- An address of a log comes before that of another one by its partition, or by its offset
there. -/
theorem lt_logRef_iff (log : ref.signal = .logs) : ref < logRef part record ↔
    ref.topicPartition.key < part.key ∨ ref.topicPartition = part ∧ ref.offset < record.offset := by
  obtain ⟨signal, ⟨topicId, partitionId⟩, offset⟩ := ref
  obtain ⟨topicId', partitionId'⟩ := part
  cases log
  show TelemetryRecordRef.key _ < TelemetryRecordRef.key _ ↔ _
  simp [TelemetryRecordRef.key, TopicPartition.key, logRef, Prod.Lex.lt_iff]
  tauto

theorem logRef_lt_iff {other : LogRecord} :
    logRef part record < logRef part other ↔ record.offset < other.offset := by
  show TelemetryRecordRef.key _ < TelemetryRecordRef.key _ ↔ _
  simp [TelemetryRecordRef.key, logRef, Prod.Lex.lt_iff]

/-- A later page asks for what comes after it. -/
theorem matchesRecord_logQuery (q) (limit after) (startOffset : Option Nat) :
    (logQuery (page q limit after) part startOffset).matchesRecord setting.engine record =
      ((logQuery q part none).matchesRecord setting.engine record &&
        startOffset.all (· ≤ record.offset)) := by
  rw [Bool.eq_iff_iff]
  unfold LogQuery.matchesRecord LogQuery.offsetMatches
  simp only [and_eq_true]
  constructor
  · rintro ⟨⟨⟨⟨⟨⟨start, -⟩, timestamp⟩, cursor⟩, terms⟩, fields⟩, pred⟩
    exact ⟨⟨⟨⟨⟨⟨⟨rfl, rfl⟩, timestamp⟩, cursor⟩, terms⟩, fields⟩, pred⟩, start⟩
  · rintro ⟨⟨⟨⟨⟨⟨-, timestamp⟩, cursor⟩, terms⟩, fields⟩, pred⟩, start⟩
    exact ⟨⟨⟨⟨⟨⟨start, rfl⟩, timestamp⟩, cursor⟩, terms⟩, fields⟩, pred⟩

/-- A range in which a log lies is valid. -/
theorem range_of_matches (met : (logQuery q part none).matchesRecord setting.engine record = true) :
    (logQuery q part none).hasInvalidRange = false ∧ validRange q = true := by
  have time : (q.startTimeUnixNanos.all (· ≤ record.timestampUnixNanos) &&
      q.endTimeUnixNanos.all (record.timestampUnixNanos < ·)) = true := by
    unfold LogQuery.matchesRecord at met
    simp only [and_eq_true] at met
    exact met.1.1.1.1.2
  show (false || q.startTimeUnixNanos.any fun start => q.endTimeUnixNanos.any (· ≤ start)) =
    false ∧ _
  unfold validRange
  generalize q.startTimeUnixNanos = start, q.endTimeUnixNanos = finish at time ⊢
  cases start with
  | none => exact ⟨rfl, rfl⟩
  | some start =>
    cases finish with
    | none => exact ⟨rfl, rfl⟩
    | some finish =>
      simp only [Option.all_some, Option.any_some, and_eq_true, decide_eq_true_eq, Bool.false_or,
        decide_eq_false_iff_not] at time ⊢
      have less := lt_of_le_of_lt time.1 time.2
      exact ⟨not_le.mpr less, le_of_lt less⟩

section

variable (nodup : (logRefs logs).Nodup)
include nodup

theorem nodup_logRecords (part) : ((logRecords logs part).map (logRef part)).Nodup := by
  have eq : (logRecords logs part).map (logRef part) =
      logRefs (logs.filter (·.topicPartition = part)) := by
    unfold logRecords logRefs
    rw [map_flatMap]
    refine flatMap_congr fun append mem => ?_
    rw [of_decide_eq_true (mem_filter.mp mem).2]
  rw [eq]
  exact nodup.sublist (filter_sublist.flatMap _)

/-- The query of a page finds the first of the matching logs from an offset on, in order. -/
theorem queryRefs_spec (q) (limit after) (startOffset : Option Nat) :
    ∃ found : List TelemetryRecordRef,
    queryRefs setting.engine logs (logQuery (page q limit after) part startOffset) =
      found.take limit ∧
      found.Pairwise (· < ·) ∧ ∀ ref, ref ∈ found ↔ ∃ record ∈ matchingLogs setting logs q part,
        startOffset.all (· ≤ record.offset) = true ∧ logRef part record = ref := by
  let found := (logRecords logs part).filter
    ((logQuery (page q limit after) part startOffset).matchesRecord setting.engine)
  have distinct : (found.map (logRef part)).Nodup :=
    (nodup_logRecords nodup part).sublist (filter_sublist.map _)
  have mem : ∀ ref, ref ∈ (found.insertionSort
        (logQuery (page q limit after) part startOffset).Le).map (logRef part) ↔
      ∃ record ∈ matchingLogs setting logs q part,
        startOffset.all (· ≤ record.offset) = true ∧ logRef part record = ref := by
    intro ref
    simp only [found, matchingLogs, mem_map, mem_insertionSort, mem_filter, matchesRecord_logQuery,
      and_eq_true]
    exact exists_congr fun record => by tauto
  refine ⟨_, ?_, ?_, mem⟩
  · rw [← map_take]
    unfold queryRefs
    split
    · next empty =>
      suffices none : found = [] ∨ limit = 0 by
        rcases none with none | rfl
        · rw [none]
          simp
        · simp
      refine (Bool.or_eq_true_iff.mp empty).symm.imp (fun invalid => ?_) fun zero => by
        simpa [logQuery, page] using zero
      refine filter_eq_nil_iff.mpr fun record _ met => ?_
      rw [matchesRecord_logQuery, and_eq_true] at met
      have same : (logQuery (page q limit after) part startOffset).hasInvalidRange =
          (logQuery q part none).hasInvalidRange := by cases startOffset <;> rfl
      rw [same, (range_of_matches met.1).1] at invalid
      cases invalid
    · rfl
  · have sorted := pairwise_insertionSort (logQuery (page q limit after) part startOffset).Le found
    have ne := ((perm_insertionSort (logQuery (page q limit after) part startOffset).Le found).map
      (logRef part)).nodup_iff.mpr distinct
    refine pairwise_map.mpr (((pairwise_map.mp ne).and sorted).imp fun ⟨ne, le⟩ =>
      logRef_lt_iff.mpr ?_)
    obtain less | ⟨-, le⟩ := Prod.Lex.le_iff.mp le
    · exact absurd less (lt_irrefl 0)
    · exact lt_of_le_of_ne le fun same => ne (congrArg (TelemetryRecordRef.mk .logs part) same)

/-- From an offset on that separates what comes after the given address, a partition contributes
the first of its matching logs after it. -/
theorem queryRefs_eq_settle (q) (limit) {startOffset : Option Nat}
    (same : ∀ record ∈ matchingLogs setting logs q part,
      startOffset.all (· ≤ record.offset) = true ↔ after.all (· < logRef part record) = true) :
    queryRefs setting.engine logs (logQuery (page q limit after) part startOffset) =
      settle after limit ((matchingLogs setting logs q part).map (logRef part)) := by
  obtain ⟨found, eq, sorted, mem⟩ := queryRefs_spec nodup q limit after startOffset
  rw [eq]
  refine take_eq_settle sorted fun ref => ?_
  rw [mem, mem_map]
  constructor
  · rintro ⟨record, member, start, rfl⟩
    exact ⟨⟨record, member, rfl⟩, (same record member).mp start⟩
  · rintro ⟨⟨record, member, rfl⟩, later⟩
    exact ⟨record, member, (same record member).mpr later, rfl⟩

/-- On a page, a partition contributes the first of its matching logs after the given address. -/
theorem partitionLogs_eq (bounded : ∀ append ∈ logs, ∀ record ∈ append.records,
    record.offset < u64Bound) (q)
    (limit) (first : after.all (·.signal.number ≤ TelemetrySignal.logs.number) = true) :
    partitionLogs setting logs (page q limit after) part =
      settle after limit ((matchingLogs setting logs q part).map (logRef part)) := by
  unfold partitionLogs
  cases after with
  | none => exact queryRefs_eq_settle nodup q limit fun _ _ => Iff.rfl
  | some start =>
    have log : start.signal = .logs := by
      cases signal : start.signal with
      | logs => rfl
      | traces => rw [Option.all_some, signal] at first; cases first
      | metrics => rw [Option.all_some, signal] at first; cases first
    have filtered : (page q limit (some start)).after.filter (·.signal = .logs) = some start := by
      simp [page, log]
    rw [filtered]
    dsimp only
    split
    · next less =>
      refine (settle_eq_nil (forall_mem_map.mpr fun record _ later => ?_)).symm
      rcases (lt_logRef_iff log).mp (of_decide_eq_true later) with greater | ⟨rfl, -⟩
      · exact lt_asymm less greater
      · exact lt_irrefl _ less
    · next notLess =>
      split
      · next same =>
        cases end' : checkedAdd start.offset 1 with
        | none =>
          refine (settle_eq_nil (forall_mem_map.mpr fun record mem later => ?_)).symm
          obtain ⟨append, held, member⟩ := mem_flatMap.mp (mem_filter.mp mem).1
          have bound := bounded append (mem_filter.mp held).1 record member
          unfold checkedAdd at end'
          rcases (lt_logRef_iff log).mp (of_decide_eq_true later) with less | ⟨-, less⟩
          · rw [same] at less
            exact lt_irrefl _ less
          · rw [if_pos (by omega)] at end'
            cases end'
        | some offset =>
          obtain ⟨rfl, -⟩ := checkedAdd_eq_some.mp end'
          refine queryRefs_eq_settle nodup q limit fun record _ => ?_
          simp [lt_logRef_iff log, same, Nat.succ_le_iff]
      · next other =>
        have greater : start.topicPartition.key < part.key := by
          refine lt_of_le_of_ne (not_lt.mp notLess) fun eq => other ?_
          obtain ⟨topic, number⟩ := Prod.mk.inj (toLex.injective eq)
          cases hstart : start.topicPartition
          cases part
          simp_all
        refine queryRefs_eq_settle nodup q limit fun record _ => ?_
        simp [lt_logRef_iff log, greater]

theorem settle_correlatedLogs
    (bounded : ∀ append ∈ logs, ∀ record ∈ append.records, record.offset < u64Bound) (q)
    (limit after) : settle after limit (correlatedLogs setting logs (page q limit after)) =
      settle after limit (loggedRefs setting logs q) := by
  unfold correlatedLogs loggedRefs
  cases asks : asksLogs q with
  | false =>
    rw [show asksLogs (page q limit after) = false from asks]
    rfl
  | true =>
    rw [show asksLogs (page q limit after) = true from asks]
    simp only [Bool.true_and]
    split
    · next first =>
      refine settle_flatMap_congr fun part _ => ?_
      rw [partitionLogs_eq nodup bounded q limit (show after.all _ = true from first),
        settle_settle]
    · next late =>
      -- all logs are before the given address
      refine settle_congr fun ref later => ⟨nofun, fun mem => ?_⟩
      obtain ⟨part, -, mem⟩ := mem_flatMap.mp mem
      obtain ⟨record, -, rfl⟩ := mem_map.mp mem
      refine absurd ?_ late
      rw [Option.all_eq_true] at later ⊢
      exact fun start at' => decide_eq_true (signal_le_of_lt (of_decide_eq_true (later start at')))

end

/-! ## One stripe -/

/-- The logs among the events of a stripe. -/
def logsOf (events : List StripeEvent) : List LogAppend :=
  events.filterMap fun
    | .logged append => some append
    | _ => none

/-- The blocks among the events of a stripe. -/
def blocksOf (events : List StripeEvent) : List TierBlock :=
  events.filterMap fun
    | .published block => some block
    | _ => none

theorem stripeOf_eq (setting) (evs) : (stripeOf setting evs).logs = logsOf evs ∧
    (stripeOf setting evs).blocks = blocksOf evs := by
  have run : ∀ st : StripeState, (evs.foldl StripeState.apply st).logs = st.logs ++ logsOf evs ∧
      (evs.foldl StripeState.apply st).blocks = st.blocks ++ blocksOf evs := by
    induction evs with
    | nil => exact fun st => ⟨(append_nil _).symm, (append_nil _).symm⟩
    | cons ev evs ih =>
      intro st
      rw [foldl_cons, (ih _).1, (ih _).2]
      cases ev with
      | logged append => exact ⟨append_assoc .., rfl⟩
      | published block => exact ⟨rfl, append_assoc ..⟩
      | indexed record => exact ⟨rfl, rfl⟩
      | expired cutoff => exact ⟨rfl, rfl⟩
  exact run _

/-- The addresses that the postings link. -/
def linkedRefs (query : CorrelationQuery) (lists : Lists) : List TelemetryRecordRef :=
  (((usedKeys query).flatMap lists).map (·.recordRef)).filter fun ref => Linked query lists ref

theorem mem_linkedRefs {lists : Lists} : ref ∈ linkedRefs q lists ↔ Linked q lists ref := by
  unfold linkedRefs
  rw [mem_filter, decide_eq_true_eq]
  refine and_iff_right_of_imp fun linked => ?_
  obtain ⟨key, asked⟩ := exists_mem_of_ne_nil _ linked.1
  obtain ⟨post, held, rfl, -⟩ := linked.2 key asked
  exact mem_map_of_mem (mem_flatMap.mpr ⟨key, asked, held⟩)

/-- All that a stripe has for a query, on whatever page. -/
def gathered (setting : Setting) (events : List StripeEvent) (query : CorrelationQuery) :
    List TelemetryRecordRef :=
  linkedRefs query ((stripeOf setting events).correlations.listsOf query.tenant) ++
    loggedRefs setting (logsOf events) query ++
    publishedRefs setting (blocksOf events) (page query 1 none) .traces ++
    publishedRefs setting (blocksOf events) (page query 1 none) .metrics

/-- On a page, a stripe contributes the first of what it has after the given address. -/
theorem settle_collected (timed : Timed evs) (nodup : (logRefs (logsOf evs)).Nodup)
    (bounded : ∀ append ∈ logsOf evs, ∀ record ∈ append.records, record.offset < u64Bound) (q)
    (limit after) :
    settle after limit (collected setting (stripeOf setting evs) (page q limit after)) =
      settle after limit (gathered setting evs q) := by
  have linked :
      settle after limit ((stripeOf setting evs).correlations.queryInto (page q limit after)) =
      settle after limit (linkedRefs q ((stripeOf setting evs).correlations.listsOf q.tenant)) := by
    rw [CorrelationIndex.queryInto_eq]
    split
    · next zero =>
      rw [show limit = 0 from zero]
      simp [settle]
    · obtain ⟨found, eq, sorted, mem⟩ :=
        queryPostings_spec (lists_ok timed q.tenant) (page q limit after)
      rw [← settle_settle after limit (linkedRefs _ _)]
      refine congrArg _ (eq.trans (take_eq_settle sorted fun ref => ?_))
      rw [mem, mem_linkedRefs]
      rfl
  obtain ⟨logs, blocks⟩ := stripeOf_eq setting evs
  unfold collected gathered
  rw [logs, blocks]
  exact settle_append_congr (settle_append_congr (settle_append_congr linked
    (settle_correlatedLogs nodup bounded q limit after)) (settle_publishedRefs _ q limit after _))
    (settle_publishedRefs _ q limit after _)

theorem mem_loggedRefs : ref ∈ loggedRefs setting logs q ↔ asksLogs q = true ∧ ∃ append ∈ logs,
    append.topicPartition ∈ askedPartitions setting q ∧ ∃ record ∈ append.records,
      (logQuery q append.topicPartition none).matchesRecord setting.engine record = true ∧
        logRef append.topicPartition record = ref := by
  unfold loggedRefs
  split
  · next asks =>
    rw [mem_flatMap, and_iff_right asks]
    constructor
    · rintro ⟨part, asked, mem⟩
      obtain ⟨record, member, eq⟩ := mem_map.mp mem
      obtain ⟨member, met⟩ := mem_filter.mp member
      obtain ⟨append, held, inside⟩ := mem_flatMap.mp member
      obtain ⟨within, here⟩ := mem_filter.mp held
      cases of_decide_eq_true here
      exact ⟨append, within, asked, record, inside, met, eq⟩
    · rintro ⟨append, held, asked, record, member, met, eq⟩
      refine ⟨append.topicPartition, asked, mem_map.mpr ⟨record, mem_filter.mpr ⟨?_, met⟩, eq⟩⟩
      exact mem_flatMap.mpr ⟨append, mem_filter.mpr ⟨held, decide_eq_true rfl⟩, member⟩
  · next unasked => exact ⟨nofun, fun h => absurd h.1 unasked⟩

/-- A record in a published block of an asked signal. -/
theorem mem_publishedRefs_iff : (ref ∈ publishedRefs setting blocks (page q 1 none) .traces ∨
      ref ∈ publishedRefs setting blocks (page q 1 none) .metrics) ↔
    setting.tiered = true ∧ q.signal.all (· = ref.signal) = true ∧ ∃ record : SignalRecord,
      record.recordRef = ref ∧ correlationTimeMatches q record.timestampUnixNanos = true ∧
        matchesCorrelation q record = true ∧ ∃ block ∈ blocks, record ∈ block.records := by
  have asks : ∀ signal, asksBlocks (page q 1 none) signal = q.signal.all (· = signal) :=
    fun _ => Bool.and_true _
  rw [mem_publishedRefs, mem_publishedRefs, asks, asks, and_eq_true, and_eq_true]
  constructor
  · rintro (⟨⟨asked, tiered⟩, record, -, ⟨block, member, signal, held⟩, time, met, rfl⟩ |
      ⟨⟨asked, tiered⟩, record, -, ⟨block, member, signal, held⟩, time, met, rfl⟩)
    all_goals
      rw [← signal, ← block.signals record held] at asked
      exact ⟨tiered, asked, record, rfl, time, met, block, member, held⟩
  · rintro ⟨tiered, asked, record, rfl, time, met, block, member, held⟩
    have own := of_decide_eq_true (and_eq_true_iff.mp met).1
    have signal := block.signals record held
    cases eq : record.recordRef.signal with
    | logs => exact absurd eq record.signal_ne
    | traces =>
      rw [eq] at asked signal
      exact .inl ⟨⟨asked, tiered⟩, record, own, ⟨block, member, signal.symm, held⟩, time, met, rfl⟩
    | metrics =>
      rw [eq] at asked signal
      exact .inr ⟨⟨asked, tiered⟩, record, own, ⟨block, member, signal.symm, held⟩, time, met, rfl⟩

end ShardTelemetry.Correlation
