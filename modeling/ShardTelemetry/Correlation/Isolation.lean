import ShardTelemetry.Correlation.Pages

/-!
# Correlation and tenants

Two stores agree for a tenant if its records are the same in both (`Store.Agrees`).  The postings
and the scan of published blocks ask for the tenant, the log query does not, and the bounds of an
index are shared by all tenants.  So the answers to the tenant are the same just if the logs of
others that meet the constraints are, and if the postings of the tenant that the indices kept link
the same records, those in published blocks aside (`correlations_isolated_iff`).
-/

namespace ShardTelemetry.Correlation

open Query List Settle
open Bool hiding and_assoc or_assoc
open Settle (settle)

variable {setting : Setting} {ref : TelemetryRecordRef} {after : Option TelemetryRecordRef}
  {limit : Nat}

/-! ## Stores -/

/-- What happened to each of the stripes of a store.  An offset of a partition is given to one log,
and what is indexed at an address has one time. -/
structure Store where
  stripes : List (List StripeEvent)
  logs_nodup : (logRefs (stripes.flatMap logsOf)).Nodup
  offset_lt : ∀ events ∈ stripes, ∀ append ∈ logsOf events, ∀ record ∈ append.records,
    record.offset < u64Bound
  timed : ∀ events ∈ stripes, Timed events

/-- The records of a tenant are the same after both runs of a stripe: those that were indexed, in
their order, the logs, and what is published. -/
structure Agrees (tenant : Text) (events other : List StripeEvent) : Prop where
  indexed : events.filter (concerns tenant) = other.filter (concerns tenant)
  logged : (logsOf events).filter (·.tenant = tenant) = (logsOf other).filter (·.tenant = tenant)
  published : ∀ record, record.tenant = tenant →
    ((∃ block ∈ blocksOf events, record ∈ block.records) ↔
      ∃ block ∈ blocksOf other, record ∈ block.records)

namespace Store

/-- The answer of a store. -/
def answer (setting : Setting) (cutoff : Option Nat) (store : Store) (query : CorrelationQuery) :
    TelemetryResult (List TelemetryRecordRef) :=
  queryCorrelations setting cutoff (store.stripes.map (stripeOf setting)) query

def Agrees (tenant : Text) (store other : Store) : Prop :=
  Forall₂ (Correlation.Agrees tenant) store.stripes other.stripes

/-- The postings that the indices kept link the record to the query. -/
def Linked (setting : Setting) (store : Store) (query : CorrelationQuery)
    (ref : TelemetryRecordRef) : Prop :=
  ∃ events ∈ store.stripes,
    Correlation.Linked query ((stripeOf setting events).correlations.listsOf query.tenant) ref

/-- Logs are asked, and the one at this address is in an asked partition and meets the
constraints. -/
def Logged (setting : Setting) (store : Store) (query : CorrelationQuery) (whose : Text → Prop)
    (ref : TelemetryRecordRef) : Prop :=
  asksLogs query = true ∧ ∃ events ∈ store.stripes, ∃ append ∈ logsOf events, whose append.tenant ∧
    append.topicPartition ∈ askedPartitions setting query ∧ ∃ record ∈ append.records,
      (logQuery query append.topicPartition none).matchesRecord setting.engine record = true ∧
        logRef append.topicPartition record = ref

/-- A published record that meets the constraints. -/
def Published (setting : Setting) (store : Store) (query : CorrelationQuery)
    (ref : TelemetryRecordRef) : Prop :=
  setting.tiered = true ∧ query.signal.all (· = ref.signal) = true ∧ ∃ record : SignalRecord,
    record.recordRef = ref ∧ correlationTimeMatches query record.timestampUnixNanos = true ∧
      matchesCorrelation query record = true ∧
        ∃ events ∈ store.stripes, ∃ block ∈ blocksOf events, record ∈ block.records

/-- All that a store has for a query, on whatever page. -/
def gathered (setting : Setting) (store : Store) (query : CorrelationQuery) :
    List TelemetryRecordRef :=
  store.stripes.flatMap fun events => Correlation.gathered setting events query

variable {store other : Store}

theorem mem_gathered : ref ∈ store.gathered setting q ↔ store.Linked setting q ref ∨
    store.Logged setting q (· ≠ q.tenant) ref ∨ store.Logged setting q (· = q.tenant) ref ∨
      store.Published setting q ref := by
  unfold gathered Correlation.gathered Linked Logged Published
  simp only [mem_flatMap, mem_append, or_assoc, mem_linkedRefs, mem_loggedRefs,
    mem_publishedRefs_iff]
  constructor
  · rintro ⟨evs, mem, linked | ⟨asks, append, held, log⟩ |
      ⟨tiered, asked, record, same, time, met, published⟩⟩
    · exact .inl ⟨evs, mem, linked⟩
    · by_cases own : append.tenant = q.tenant
      · exact .inr (.inr (.inl ⟨asks, evs, mem, append, held, own, log⟩))
      · exact .inr (.inl ⟨asks, evs, mem, append, held, own, log⟩)
    · exact .inr (.inr (.inr ⟨tiered, asked, record, same, time, met, evs, mem, published⟩))
  · rintro (⟨evs, mem, linked⟩ | ⟨asks, evs, mem, append, held, -, log⟩ |
      ⟨asks, evs, mem, append, held, -, log⟩ |
        ⟨tiered, asked, record, same, time, met, evs, mem, published⟩)
    · exact ⟨evs, mem, .inl linked⟩
    · exact ⟨evs, mem, .inr (.inl ⟨asks, append, held, log⟩)⟩
    · exact ⟨evs, mem, .inr (.inl ⟨asks, append, held, log⟩)⟩
    · exact ⟨evs, mem, .inr (.inr ⟨tiered, asked, record, same, time, met, published⟩)⟩

theorem nodup_of_mem (store : Store) (mem : evs ∈ store.stripes) :
    (logRefs (logsOf evs)).Nodup := by
  have nodup := store.logs_nodup
  unfold logRefs at nodup
  rw [flatMap_assoc] at nodup
  exact (nodup_flatMap.mp nodup).1 evs mem

/-- What the stripes answer.  All of them check the range, and the first that refuses it ends the
query. -/
theorem mapM_queryCorrelationStripe (stripes : List (List StripeEvent)) (q : CorrelationQuery) :
    (stripes.map (stripeOf setting)).mapM (fun st => queryCorrelationStripe setting st q) =
      if active q then do
        ensure (stripes.isEmpty || rangeAccepted setting q .traces)
          (.invalidQuery "tier query range starts after its end")
        ensure (stripes.isEmpty || rangeAccepted setting q .metrics)
          (.invalidQuery "tier query range starts after its end")
        return stripes.map fun evs =>
          settle q.after q.limit (collected setting (stripeOf setting evs) q)
      else return stripes.map fun _ => [] := by
  induction stripes with
  | nil => cases active q <;> rfl
  | cons evs stripes ih =>
    rw [map_cons, mapM_cons, queryCorrelationStripe_eq, ih]
    cases active q with
    | false => rfl
    | true =>
      cases rangeAccepted setting q .traces with
      | false => rfl
      | true =>
        cases rangeAccepted setting q .metrics with
        | false => rfl
        | true =>
          simp only [Bool.or_true]
          rfl

/-- The answer on a page: the first of what the store has after the given address. -/
theorem serviceCorrelations_eq (store : Store) (q) (limit after) :
    serviceCorrelations setting (store.stripes.map (stripeOf setting)) (page q limit after) =
      if active (page q limit after) then do
        ensure (store.stripes.isEmpty || rangeAccepted setting (page q limit after) .traces)
          (.invalidQuery "tier query range starts after its end")
        ensure (store.stripes.isEmpty || rangeAccepted setting (page q limit after) .metrics)
          (.invalidQuery "tier query range starts after its end")
        return settle after limit (store.gathered setting q)
      else return [] := by
  unfold serviceCorrelations
  rw [mapM_queryCorrelationStripe]
  cases asked : active (page q limit after) with
  | false =>
    have empty : (store.stripes.map fun _ => ([] : List TelemetryRecordRef)).flatten = [] := by simp
    show (if limit = 0 then Except.ok [] else Except.ok (settle after limit (flatten _))) = _
    rw [empty]
    simp [settle, increasing]
    rfl
  | true =>
    have positive : ¬ (page q limit after).limit = 0 := by
      rintro (rfl : limit = 0)
      cases asked
    have settled : settle after limit (store.stripes.map fun evs => settle after limit
        (collected setting (stripeOf setting evs) (page q limit after))).flatten =
        settle after limit (store.gathered setting q) := by
      rw [← flatMap_def]
      refine settle_flatMap_congr fun evs mem => ?_
      rw [settle_settle, settle_collected (store.timed evs mem) (store.nodup_of_mem mem)
        (store.offset_lt evs mem)]
    rw [if_neg positive, ← settled]
    cases store.stripes.isEmpty || rangeAccepted setting (page q limit after) .traces with
    | false => rfl
    | true =>
      cases store.stripes.isEmpty || rangeAccepted setting (page q limit after) .metrics <;> rfl

/-! ## Agreement -/

theorem exists_iff {stripes stripes' : List (List StripeEvent)} {p : List StripeEvent → Prop}
    (agrees : Forall₂ (Correlation.Agrees tenant) stripes stripes')
    (h : ∀ evs evs', Correlation.Agrees tenant evs evs' → (p evs ↔ p evs')) :
    (∃ evs ∈ stripes, p evs) ↔ ∃ evs ∈ stripes', p evs := by
  induction agrees with
  | nil => simp
  | cons first rest ih =>
    simp only [mem_cons, exists_eq_or_imp]
    rw [h _ _ first, ih]

namespace Agrees

variable {q : CorrelationQuery} (agrees : store.Agrees q.tenant other)
include agrees

theorem published_iff (ref) : store.Published setting q ref ↔ other.Published setting q ref := by
  unfold Published
  refine and_congr_right fun _ => and_congr_right fun _ => exists_congr fun record => ?_
  refine and_congr_right fun _ => and_congr_right fun _ => and_congr_right fun met => ?_
  exact exists_iff agrees fun _ _ same =>
    same.published record (of_decide_eq_true (and_eq_true_iff.mp met).1)

theorem own_iff (ref) : store.Logged setting q (· = q.tenant) ref ↔
    other.Logged setting q (· = q.tenant) ref := by
  refine and_congr_right fun _ => exists_iff agrees fun evs evs' same =>
    exists_congr fun append => ?_
  have own : append ∈ logsOf evs ∧ append.tenant = q.tenant ↔
      append ∈ logsOf evs' ∧ append.tenant = q.tenant := by
    simpa using Iff.of_eq (congrArg (append ∈ ·) same.logged)
  rw [← and_assoc, own, and_assoc]

end Agrees

theorem signal_of_logged (h : store.Logged setting q whose ref) : ref.signal = .logs := by
  obtain ⟨-, evs, -, append, -, -, -, record, -, -, rfl⟩ := h
  rfl

theorem signal_of_linked (h : store.Linked setting q ref) : ref.signal ≠ .logs := by
  obtain ⟨evs, -, some, all⟩ := h
  obtain ⟨key, asked⟩ := exists_mem_of_ne_nil _ some
  obtain ⟨post, held, rfl, -⟩ := all key asked
  obtain ⟨record, -, rfl⟩ := mem_listsOf held
  exact record.signal_ne

theorem signal_of_published (h : store.Published setting q ref) : ref.signal ≠ .logs := by
  obtain ⟨-, -, record, rfl, -⟩ := h
  exact record.signal_ne

/-- A log at an address is of one tenant. -/
theorem not_own_of_foreign (h : store.Logged setting q (· ≠ q.tenant) ref) :
    ¬ store.Logged setting q (· = q.tenant) ref := by
  rintro ⟨-, evs', mem', append', held', own, -, record', member', -, same⟩
  obtain ⟨-, evs, mem, append, held, foreign, -, record, member, -, rfl⟩ := h
  have ne : append ≠ append' := fun eq => foreign (eq ▸ own)
  have symm : Std.Symm (Function.onFun List.Disjoint fun append : LogAppend =>
      append.records.map (logRef append.topicPartition)) := ⟨fun _ _ => List.Disjoint.symm⟩
  have apart := (nodup_flatMap.mp store.logs_nodup).2.forall
    (mem_flatMap.mpr ⟨evs, mem, held⟩) (mem_flatMap.mpr ⟨evs', mem', held'⟩) ne
  exact apart (mem_map_of_mem member) (same ▸ mem_map_of_mem member')

/-- A query has a constraint just if it asks for keys. -/
theorem active_page : active (page q limit after) = true ↔ limit ≠ 0 ∧ queryKeys q ≠ [] := by
  unfold active page queryKeys
  cases q.traceId <;> cases q.resourceId <;> cases q.scopeId <;> cases q.attributes <;> simp

theorem queryKeys_of_asksLogs (asks : asksLogs q = true) : queryKeys q ≠ [] := by
  unfold asksLogs at asks
  unfold queryKeys
  rintro none
  simp only [append_eq_nil_iff, map_eq_nil_iff, Option.toList_eq_nil_iff] at none
  obtain ⟨⟨⟨trace, resource⟩, scope⟩, attributes⟩ := none
  simp [trace, resource, scope, attributes] at asks
  exact asks.2 (length_eq_zero_iff.mp asks.1.2.symm)

/-- What the postings link is in a valid range, and the query asks for keys. -/
theorem asked_of_linked (h : store.Linked setting q ref) :
    validRange q = true ∧ queryKeys q ≠ [] := by
  obtain ⟨evs, -, some, all⟩ := h
  obtain ⟨key, asked⟩ := exists_mem_of_ne_nil _ some
  obtain ⟨post, -, -, met⟩ := all key asked
  constructor
  · unfold correlationPostingMatches at met
    unfold validRange
    simp only [and_eq_true, Option.all_eq_true, decide_eq_true_eq] at met ⊢
    exact fun start at' finish at'' => (met.1.2 start at').trans (met.2 finish at'')
  · intro none
    unfold usedKeys at some
    rw [none] at some
    exact some rfl

theorem asked_of_logged (h : store.Logged setting q whose ref) :
    validRange q = true ∧ queryKeys q ≠ [] := by
  obtain ⟨asks, evs, -, append, -, -, -, record, -, met, -⟩ := h
  exact ⟨(range_of_matches met).2, queryKeys_of_asksLogs asks⟩

theorem retainedQuery_page (cutoff) (q) (limit : Nat) (after) :
    retainedQuery cutoff (page q limit after) =
      (retainedQuery cutoff q).map (page · limit after) := by
  cases cutoff with
  | none => rfl
  | some cutoff =>
    show (if q.endTimeUnixNanos.any (· < cutoff) then none else some _) = _
    unfold retainedQuery
    dsimp only
    split <;> rfl

theorem retainedQuery_tenant (h : retainedQuery cutoff q = some retained) :
    retained.tenant = q.tenant := by
  cases cutoff with
  | none => cases h; rfl
  | some cutoff =>
    unfold retainedQuery at h
    dsimp only at h
    split at h
    · cases h
    · cases h; rfl

/-- The logs of others that meet the constraints are the same in both stores, and so are the records
that the postings link, those in published blocks aside. -/
structure Indistinct (setting : Setting) (query : CorrelationQuery) (store other : Store) :
    Prop where
  foreign : ∀ ref, store.Logged setting query (· ≠ query.tenant) ref ↔
    other.Logged setting query (· ≠ query.tenant) ref
  linked : ∀ ref, ¬ store.Published setting query ref →
    (store.Linked setting query ref ↔ other.Linked setting query ref)

theorem foreign_iff : store.Logged setting q (· ≠ q.tenant) ref ↔ ref ∈ store.gathered setting q ∧
    ref.signal = .logs ∧ ¬ store.Logged setting q (· = q.tenant) ref := by
  rw [mem_gathered]
  constructor
  · exact fun foreign => ⟨.inr (.inl foreign), signal_of_logged foreign, not_own_of_foreign foreign⟩
  · rintro ⟨linked | foreign | own | published, log, notOwn⟩
    · exact absurd log (signal_of_linked linked)
    · exact foreign
    · exact absurd own notOwn
    · exact absurd log (signal_of_published published)

theorem linked_iff (unpublished : ¬ store.Published setting q ref) :
    store.Linked setting q ref ↔ ref ∈ store.gathered setting q ∧ ref.signal ≠ .logs := by
  rw [mem_gathered]
  constructor
  · exact fun linked => ⟨.inl linked, signal_of_linked linked⟩
  · rintro ⟨linked | foreign | own | published, cold⟩
    · exact linked
    · exact absurd (signal_of_logged foreign) cold
    · exact absurd (signal_of_logged own) cold
    · exact absurd published unpublished

/-- Stores that agree have the same for a query just if they are indistinct. -/
theorem Agrees.indistinct_iff (agrees : store.Agrees q.tenant other) :
    Indistinct setting q store other ↔
    ∀ ref, ref ∈ store.gathered setting q ↔ ref ∈ other.gathered setting q := by
  constructor
  · intro same ref
    rw [mem_gathered, mem_gathered, same.foreign, agrees.own_iff, agrees.published_iff]
    by_cases published : other.Published setting q ref
    · simp [published]
    · rw [same.linked ref (mt (agrees.published_iff ref).mp published)]
  · intro same
    refine ⟨fun ref => ?_, fun ref unpublished => ?_⟩
    · rw [foreign_iff, foreign_iff, same, agrees.own_iff]
    · rw [linked_iff unpublished, linked_iff (mt (agrees.published_iff ref).mpr unpublished), same]

/-- What the postings link is the same if no index has dropped a posting. -/
theorem Agrees.linked_of_undropped (agrees : store.Agrees q.tenant other)
    (undropped : ∀ evs ∈ store.stripes ++ other.stripes,
      Undropped (stripeOf setting evs).correlations) (ref) :
    store.Linked setting q ref ↔ other.Linked setting q ref := by
  have unbounded : ∀ evs ∈ store.stripes ++ other.stripes, Correlation.Linked q
      ((stripeOf setting evs).correlations.listsOf q.tenant) ref ↔
        Correlation.Linked q (evs.foldl (Lists.after q.tenant) fun _ => []) ref :=
    fun evs mem => by rw [(listsOf_stripeOf evs (undropped evs mem)).2]
  calc
    store.Linked setting q ref
    _ ↔ ∃ evs ∈ store.stripes,
        Correlation.Linked q (evs.foldl (Lists.after q.tenant) fun _ => []) ref :=
      exists_congr fun evs => and_congr_right fun mem => unbounded evs (mem_append_left _ mem)
    _ ↔ ∃ evs ∈ other.stripes,
        Correlation.Linked q (evs.foldl (Lists.after q.tenant) fun _ => []) ref :=
      exists_iff agrees fun evs evs' same => by
        rw [← foldl_after_filter, same.indexed, foldl_after_filter]
    _ ↔ other.Linked setting q ref :=
      exists_congr fun evs => and_congr_right fun mem =>
        (unbounded evs (mem_append_right _ mem)).symm

end Store

open Store

/-- One log partition, and room for a few postings. -/
def sampleSetting : Setting where
  router _ _ := ⟨TelemetrySignal.logs.topicId, 0⟩
  logPartitions := 1
  engine := .ascii
  correlations := ⟨16, 8, 64⟩
  tiered := true
  layout blocks := [[blocks]]
  flatten_layout blocks := by simp

def sampleAppend (tenant : Text) (offset traceId : Nat) : LogAppend :=
  ⟨tenant, ⟨TelemetrySignal.logs.topicId, 0⟩,
    [⟨offset, 0, [], [⟨"otel.trace_id".toList, idText traceId⟩]⟩]⟩

def sampleSpan (tenant : Text) (offset traceId : Nat) : DurableSpan :=
  ⟨tenant, ⟨TelemetrySignal.traces.topicId, 0⟩, offset, 0, traceId, ⟨1, []⟩, ⟨2, []⟩, [], [], []⟩

def samplePoint : DurableMetricPoint :=
  ⟨['a'], ⟨TelemetrySignal.metrics.topicId, 0⟩, 0, 0, ⟨1, []⟩, ⟨2, []⟩, [], [], [(some 7, [])]⟩

/-- A log, a span that is indexed, and a span and a metric point that are published, all of tenant
`a` in trace 7, and a log and a span of tenant `b` in the same partitions. -/
def sampleEvents (traceId : Nat) : List StripeEvent :=
  [.logged (sampleAppend ['a'] 0 7), .logged (sampleAppend ['b'] 1 traceId),
    .indexed (sampleSpan ['a'] 0 7).record, .indexed (sampleSpan ['b'] 1 traceId).record,
    .published (.ofSpans [(sampleSpan ['a'] 2 7, 5)]),
    .published (.ofMetrics 3 samplePoint [samplePoint] fun _ mem =>
      mem_singleton.mp mem ▸ ⟨rfl, rfl⟩)]

def sampleStore (traceId : Nat) : Store where
  stripes := [sampleEvents traceId]
  logs_nodup := by
    show [(⟨.logs, _, 0⟩ : TelemetryRecordRef), ⟨.logs, _, 1⟩].Nodup
    simp
  offset_lt := by
    intro evs mem append held
    cases mem_singleton.mp mem
    have appends : append = sampleAppend ['a'] 0 7 ∨ append = sampleAppend ['b'] 1 traceId := by
      simpa [sampleEvents, logsOf] using held
    rcases appends with rfl | rfl <;> simp [sampleAppend, u64Bound]
  timed := by
    intro evs mem record record' held held' _
    cases mem_singleton.mp mem
    have times : ∀ record, .indexed record ∈ sampleEvents traceId →
        record.timestampUnixNanos = 0 := by
      intro record held
      have records : record = (sampleSpan ['a'] 0 7).record ∨
          record = (sampleSpan ['b'] 1 traceId).record := by
        simpa [sampleEvents] using held
      rcases records with rfl | rfl <;> rfl
    rw [times record held, times record' held']

theorem sampleStore_agrees (traceId traceId' : Nat) :
    (sampleStore traceId).Agrees ['a'] (sampleStore traceId') := by
  have blocks : blocksOf (sampleEvents traceId) = blocksOf (sampleEvents traceId') := by
    simp [sampleEvents, blocksOf]
  refine .cons ⟨?_, ?_, fun _ _ => by rw [blocks]⟩ .nil
  · simp [sampleEvents, concerns, sampleSpan, DurableSpan.record]
  · simp [sampleEvents, logsOf, sampleAppend]

/-- Trace 7 of tenant `a` -/
def sampleQuery : CorrelationQuery :=
  ⟨['a'], some 7, none, none, [], [], none, none, none, none, 10⟩

end ShardTelemetry.Correlation
