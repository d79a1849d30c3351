import ShardTelemetry.Lib.TopK
import ShardTelemetry.Loki.Selector

/-!
# Range queries over the partitions of a tenant

`query_loki_range` asks every partition of the tenant for its first few matching records, merges the
answers and cuts them at the limit.  The number of records asked of each partition is an even share
of the limit, and is doubled only while the merged page is short.

A partition answers a query with `LogQuery.select`.
-/

namespace ShardTelemetry.Loki

open Query StructuralRecordView List TopK LogSelector

/-- `sort_unstable_by_key` by the timestamp: any arrangement in that order. -/
structure UnstableSort where
  sort : List LokiEntry → List LokiEntry
  perm : ∀ entries, (sort entries).Perm entries
  sorted : ∀ entries,
    (sort entries).Pairwise fun left right => left.timestampUnixNanos ≤ right.timestampUnixNanos

/-- The log partitions of a store, and what a query reads besides. -/
structure LogStore (R : Type) where
  partitions : List TopicPartition
  records : TopicPartition → List R
  deletes : Text → List DeleteRequest
  /-- Records before this time are not shown any more. -/
  retentionCutoff : Option Nat
  nodup_partitions : partitions.Nodup
  /-- A list in memory has at most `isize::MAX` elements. -/
  length_records : ∀ partition, (records partition).length < 2 ^ 63

structure LokiRangeRequest where
  tenant : Text
  selector : LogSelector
  startTimestampUnixNanos : Int
  endTimestampUnixNanos : Int
  limit : Nat
  newestFirst : Bool
  end_lt : endTimestampUnixNanos < 2 ^ 63
  limit_lt : limit < u64Bound

structure LokiQueryResult where
  entries : List LokiEntry
  linesProcessed : Nat
  bytesProcessed : Nat

/-- `LokiQueryResult::default` -/
def LokiQueryResult.default : LokiQueryResult := ⟨[], 0, 0⟩

section Query

variable {R : Type} [StructuralRecordView R]

namespace LogStore

/-- The partitions that hold a record of the tenant. -/
def tenantPartitions (store : LogStore R) (tenant : Text) : List TopicPartition :=
  store.partitions.filter fun partition =>
    (store.records partition).any fun record => fieldEquals record ⟨tenantField, tenant⟩

def retainedQueryStart (store : LogStore R) (requested : Option Nat) : Option Nat :=
  match requested, store.retentionCutoff with
  | some requested, some cutoff => some (max requested cutoff)
  | none, some cutoff => some cutoff
  | requested, none => requested

end LogStore

/-- The first bound of the native query. -/
def LokiRangeRequest.start (req : LokiRangeRequest) : Nat :=
  req.startTimestampUnixNanos.toNat

/-- The second bound of the native query, which is exclusive. -/
def LokiRangeRequest.finish (req : LokiRangeRequest) : Nat :=
  saturatingAdd req.endTimestampUnixNanos.toNat 1

/-- The query for one partition. -/
def lokiQuery (store : LogStore R) (req : LokiRangeRequest) (limit : Option Nat)
    (partition : TopicPartition) : LogQuery :=
  let query := (LogQuery.new partition).sortByTimestamp.withField tenantField req.tenant
  let query := match limit with
    | some limit => query.withLimit limit
    | none => query
  let query := { query with
    startTimestampUnixNanos := store.retainedQueryStart (some req.start)
    endTimestampUnixNanos := some req.finish }
  let query := if req.newestFirst then query.newestFirst else query
  let query := req.selector.exactLabelMatchers.foldl
    (fun query matcher => query.withField (labelPrefix ++ matcher.1) matcher.2) query
  match req.selector.indexedLinePredicate with
  | some pred => query.withPredicate pred
  | none => query

variable (logql : Logql) (unstable : UnstableSort)

/-- The entries that deletes leave. -/
def retainEntries (requests : List DeleteRequest) (ents : List LokiEntry) :
    LokiResult (List LokiEntry) :=
  if requests.isEmpty then .ok ents else applyLogicalDeletes logql ents requests

/-- The page of one turn, before it is cut. -/
def mergeEntries (selector : LogSelector) (newestFirst : Bool) (ents : List LokiEntry) :
    List LokiEntry :=
  let ents := if selector.isExactLabelOnly then ents
    else ents.filterMap (selector.process logql)
  let sorted := unstable.sort ents
  if newestFirst then sorted.reverse else sorted

/-- The loop of `query_loki_range`. -/
def queryLokiTurns (store : LogStore R) (req : LokiRangeRequest)
    (partitions : List TopicPartition) (perPartitionLimit : Nat) (_ : perPartitionLimit < u64Bound)
    (linesProcessed bytesProcessed : Nat) : LokiResult LokiQueryResult := do
  let deleteRequests := store.deletes req.tenant
  let boundedCandidates := req.selector.isExactLabelOnly && deleteRequests.isEmpty
  let limit := if boundedCandidates then some perPartitionLimit else none
  let partitionMatches := partitions.map fun partition =>
    (lokiQuery store req limit partition).select logql.text (store.records partition)
  let saturated := boundedCandidates && partitionMatches.any fun records =>
    perPartitionLimit ≤ records.length
  let found := partitionMatches.flatten
  let linesProcessed := saturatingAdd linesProcessed found.length
  let bytesProcessed := found.foldl
    (fun bytes record => saturatingAdd bytes (utf8 (message record)).length) bytesProcessed
  let ents ← found.mapM logMatchToEntry
  let ents ← retainEntries logql deleteRequests ents
  let ents := (mergeEntries logql unstable req.selector req.newestFirst ents).take req.limit
  let nextLimit := min (perPartitionLimit * 2) (u64Bound - 1)
  if req.limit ≤ ents.length ∨ saturated = false then
    return ⟨ents, linesProcessed, bytesProcessed⟩
  else if hnext : nextLimit = perPartitionLimit then
    return ⟨ents, linesProcessed, bytesProcessed⟩
  else
    queryLokiTurns store req partitions nextLimit
      (lt_of_le_of_lt (Nat.min_le_right ..) (by decide)) linesProcessed bytesProcessed
termination_by u64Bound - perPartitionLimit

/-- An even share of the limit. -/
def firstLimit (limit partitions : Nat) : Nat := max ((limit + partitions - 1) / partitions) 1

theorem firstLimit_lt (h : limit < u64Bound) : firstLimit limit partitions < u64Bound := by
  have hle : (limit + partitions - 1) / partitions ≤ limit := by
    cases partitions with
    | zero => simp
    | succ partitions =>
      rcases Nat.eq_zero_or_pos limit with rfl | hpos
      · exact (Nat.div_eq_of_lt (by omega)).le
      · refine Nat.div_le_of_le_mul ?_
        have hmul := Nat.le_mul_of_pos_right partitions hpos
        rw [Nat.add_one_mul]
        omega
  exact max_lt (lt_of_le_of_lt hle h) (by decide)

def queryLokiRange (store : LogStore R) (req : LokiRangeRequest) : LokiResult LokiQueryResult :=
  if req.limit = 0 ∨ req.endTimestampUnixNanos < 0 then .ok .default
  else
    let partitions := store.tenantPartitions req.tenant
    if partitions.isEmpty then .ok .default
    else queryLokiTurns logql unstable store req partitions
      (firstLimit req.limit partitions.length) (firstLimit_lt req.limit_lt) 0 0

/-! ## What a range query is for -/

/-- The entry comes before another one in the direction of the request, or at the same time. -/
def LokiRangeRequest.Precedes (req : LokiRangeRequest) (left right : LokiEntry) : Prop :=
  if req.newestFirst then right.timestampUnixNanos ≤ left.timestampUnixNanos
  else left.timestampUnixNanos ≤ right.timestampUnixNanos

instance (req : LokiRangeRequest) : DecidableRel req.Precedes := fun _ _ =>
  inferInstanceAs (Decidable (ite _ _ _))

/-- The entries of the tenant in one partition that the selector lets through, within the range and
the retention. -/
def LogStore.matchingEntries (store : LogStore R) (req : LokiRangeRequest)
    (partition : TopicPartition) : List LokiEntry :=
  (store.records partition).filterMap fun record =>
    match logMatchToEntry record with
    | .ok entry =>
      if fieldEquals record ⟨tenantField, req.tenant⟩ ∧
          req.startTimestampUnixNanos ≤ entry.timestampUnixNanos ∧
          entry.timestampUnixNanos ≤ req.endTimestampUnixNanos ∧
          store.retentionCutoff.all (· ≤ timestampUnixNanos record) then
        req.selector.process logql entry
      else none
    | .error _ => none

/-- The entry of a record, whatever its time. -/
def toEntry (record : R) : LokiEntry where
  timestampUnixNanos := timestampUnixNanos record
  labels := labelsOf (fields record)
  line := message record
  structuredMetadata := metadataOf (fields record)

/-- A record of the tenant within the range and the retention. -/
def LogStore.eligible (store : LogStore R) (req : LokiRangeRequest) (record : R) : Bool :=
  fieldEquals record ⟨tenantField, req.tenant⟩ &&
    req.startTimestampUnixNanos ≤ timestampUnixNanos record &&
    timestampUnixNanos record ≤ req.endTimestampUnixNanos &&
    store.retentionCutoff.all (· ≤ timestampUnixNanos record)

/-- Every matcher stands among the fields of the record, whatever other fields say of its label. -/
def LokiRangeRequest.labels (req : LokiRangeRequest) (record : R) : Bool :=
  req.selector.matchers.all fun matcher =>
    fieldEquals record ⟨labelPrefix ++ matcher.name, matcher.value⟩

/-- The direction of the request, where the records of one time come by their offsets. -/
def LokiRangeRequest.Arranges (req : LokiRangeRequest) (left right : R) : Prop :=
  let key (record : R) := toLex (timestampUnixNanos record, offset record)
  if req.newestFirst then key right ≤ key left else key left ≤ key right

instance (req : LokiRangeRequest) : DecidableRel (req.Arranges : R → R → Prop) := fun _ _ =>
  inferInstanceAs (Decidable (ite _ _ _))

/-- The entries of one partition whose records have the fields of the matchers. -/
def LogStore.labelledEntries (store : LogStore R) (req : LokiRangeRequest)
    (partition : TopicPartition) : List LokiEntry :=
  (((store.records partition).filter fun record =>
    store.eligible req record && req.labels record).insertionSort
    req.Arranges).map toEntry

/-- Of the labelled entries, each partition gives as many as fill the page for the first time.
Those up to the last place of the page are accepted by the selector, and no matching entry is
missing before it. -/
def Covered (store : LogStore R) (req : LokiRangeRequest) : Prop :=
  let parts := (store.tenantPartitions req.tenant).map (store.labelledEntries req)
  ∀ gathered, Gathered req.limit (firstLimit req.limit parts.length) parts gathered →
    Covers req.Precedes (req.selector.matchesEntry logql) req.limit gathered
      (store.partitions.flatMap (store.matchingEntries logql req))

end Query

/-! ## The order of a request -/

section Order

variable {req : LokiRangeRequest}

instance : Std.Total req.Precedes where
  total left right := by
    unfold LokiRangeRequest.Precedes
    cases req.newestFirst with
    | false => exact le_total _ _
    | true => exact le_total _ _

instance : IsTrans LokiEntry req.Precedes where
  trans first second third h h' := by
    unfold LokiRangeRequest.Precedes at *
    cases hnewest : req.newestFirst with
    | false =>
      rw [hnewest] at h h'
      exact le_trans h h'
    | true =>
      rw [hnewest] at h h'
      exact le_trans h' h

end Order

section Proofs

variable {R : Type} [StructuralRecordView R] {logql : Logql}
  {unstable : UnstableSort} {store : LogStore R} {req : LokiRangeRequest}

theorem logMatchToEntry_of_lt {record : R} (h : timestampUnixNanos record < 2 ^ 63) :
    logMatchToEntry record = .ok (toEntry record) := by
  have hcheck : check (timestampUnixNanos record < 2 ^ 63)
      (.internal "timestamp exceeds Loki i64 range") = .ok () := check_eq_ok.mpr (by simpa using h)
  rw [logMatchToEntry, hcheck]
  rfl

theorem logMatchToEntry_of_not_lt {record : R} (h : ¬ timestampUnixNanos record < 2 ^ 63) :
    logMatchToEntry record = .error (.internal "timestamp exceeds Loki i64 range") := by
  unfold logMatchToEntry check
  rw [if_neg (by simpa using h)]
  rfl

theorem mapM_logMatchToEntry {recs : List R}
    (h : ∀ record ∈ recs, timestampUnixNanos record < 2 ^ 63) :
    recs.mapM logMatchToEntry = .ok (recs.map toEntry) := by
  induction recs with
  | nil => rfl
  | cons record recs ih =>
    rw [mapM_cons, logMatchToEntry_of_lt (h record mem_cons_self),
      ih (forall_mem_cons.mp h).2]
    rfl

theorem foldl_withField (q : LogQuery) (matchers : List (Text × Text)) :
    matchers.foldl (fun q matcher => q.withField (labelPrefix ++ matcher.1) matcher.2) q =
      { q with exactFields := q.exactFields ++
          matchers.map fun matcher => ⟨labelPrefix ++ matcher.1, matcher.2⟩ } := by
  induction matchers generalizing q with
  | nil => simp
  | cons matcher matchers ih =>
    rw [foldl_cons, ih]
    simp [LogQuery.withField]

/-- The label matchers of a selector without anything else. -/
theorem LogSelector.exactLabelMatchers_of_exact {selector : LogSelector}
    (h : selector.isExactLabelOnly = true) :
    selector.stages = [] ∧ selector.exactLabelMatchers =
      selector.matchers.map fun matcher => (matcher.name, matcher.value) := by
  simp only [isExactLabelOnly, Bool.and_eq_true, List.isEmpty_iff, all_eq_true, decide_eq_true_eq]
    at h
  refine ⟨h.1, ?_⟩
  rw [← filterMap_eq_map]
  refine filterMap_congr fun matcher hmem => ?_
  rw [if_pos (h.2 matcher hmem)]
  rfl

omit [StructuralRecordView R] in
/-- The query that a selector makes. -/
theorem lokiQuery_eq (limit : Option Nat) (partition : TopicPartition) :
    lokiQuery store req limit partition = {
      topicPartition := partition
      terms := []
      exactFields := ⟨tenantField, req.tenant⟩ :: req.selector.exactLabelMatchers.map fun matcher =>
        ⟨labelPrefix ++ matcher.1, matcher.2⟩
      predicate := req.selector.indexedLinePredicate.getD .matchAll
      startOffset := none
      endOffset := none
      startTimestampUnixNanos := store.retainedQueryStart (some req.start)
      endTimestampUnixNanos := some req.finish
      limit
      order := if req.newestFirst then .newestFirst else .oldestFirst
      sort := .timestamp
      after := none } := by
  unfold lokiQuery
  dsimp only
  rw [foldl_withField]
  cases limit <;> cases req.newestFirst <;> cases req.selector.indexedLinePredicate <;> rfl

/-- A record is found by its time, its tenant, the fields of the label matchers and its line. -/
theorem matchesRecord_lokiQuery_iff {partition : TopicPartition} {record : R} :
    (lokiQuery store req limit partition).matchesRecord engine record = true ↔
      (store.retainedQueryStart (some req.start)).all (· ≤ timestampUnixNanos record) = true ∧
        timestampUnixNanos record < req.finish ∧
          fieldEquals record ⟨tenantField, req.tenant⟩ = true ∧
        (∀ matcher ∈ req.selector.exactLabelMatchers,
          fieldEquals record ⟨labelPrefix ++ matcher.1, matcher.2⟩ = true) ∧
        predicateMatches engine (req.selector.indexedLinePredicate.getD .matchAll)
          record = true := by
  rw [lokiQuery_eq]
  simp only [LogQuery.matchesRecord, LogQuery.offsetMatches, LogQuery.timestampMatches,
    LogQuery.cursorMatches, LogQuery.legacyTermsMatch, LogQuery.legacyFieldsMatch, Option.all_none,
    Option.all_some, all_nil, all_cons, all_map, all_eq_true, Bool.and_true, Bool.true_and,
    Bool.and_eq_true, decide_eq_true_eq, and_assoc, Function.comp]

theorem fieldEquals_iff {record : R} {key value : Text} :
    fieldEquals record ⟨key, value⟩ = true ↔ ⟨key, value⟩ ∈ fields record := by
  simp only [fieldEquals, any_eq_true, Bool.and_eq_true, beq_iff_eq]
  constructor
  · rintro ⟨⟨key, value⟩, hmem, rfl, rfl⟩
    exact hmem
  · intro hmem
    exact ⟨_, hmem, rfl, rfl⟩

omit [StructuralRecordView R] in
/-- The bounds of the native query are those of the request. -/
theorem retainedQueryStart_all (time) :
      (store.retainedQueryStart (some req.start)).all (· ≤ time) = true ↔
      req.startTimestampUnixNanos ≤ time ∧ store.retentionCutoff.all (· ≤ time) = true := by
  have hstart : req.start ≤ time ↔ req.startTimestampUnixNanos ≤ time := by
    unfold LokiRangeRequest.start
    omega
  unfold LogStore.retainedQueryStart
  cases store.retentionCutoff with
  | none => simp [hstart]
  | some cutoff => simp [hstart]

theorem lt_finish_iff (h : 0 ≤ req.endTimestampUnixNanos) (time) :
    time < req.finish ↔ (time : Int) ≤ req.endTimestampUnixNanos := by
  have hlt := req.end_lt
  unfold LokiRangeRequest.finish saturatingAdd u64Bound
  omega

/-- A query with a limit returns the first of what it returns without. -/
theorem select_lokiQuery_limit (engine) (lim : Nat) (partition : TopicPartition) (recs : List R) :
    (lokiQuery store req (some lim) partition).select engine recs =
      ((lokiQuery store req none partition).select engine recs).take lim := by
  rw [lokiQuery_eq, lokiQuery_eq]
  rfl

/-- The sort may arrange the entries of one time in any way. -/
theorem UnstableSort.exists_sort_eq {ents arranged : List LokiEntry} (hperm : arranged.Perm ents)
    (hsorted : arranged.Pairwise fun left right =>
      left.timestampUnixNanos ≤ right.timestampUnixNanos) :
    ∃ unstable : UnstableSort, unstable.sort ents = arranged := by
  let sort (others : List LokiEntry) := if others = ents then arranged
    else others.insertionSort fun left right => left.timestampUnixNanos ≤ right.timestampUnixNanos
  refine ⟨⟨sort, fun others => ?_, fun others => ?_⟩, if_pos rfl⟩
  · unfold sort
    split
    · next heq => exact heq ▸ hperm
    · exact perm_insertionSort _ _
  · unfold sort
    split
    · exact hsorted
    · exact pairwise_insertionSort _ _

/-- No partition returns more records than a list can hold. -/
theorem length_labelledEntries_lt (partition) :
    (store.labelledEntries req partition).length < 2 ^ 63 := by
  refine lt_of_le_of_lt ?_ (store.length_records partition)
  rw [LogStore.labelledEntries, length_map, length_insertionSort]
  exact length_filter_le ..

section Exact

variable (hexact : req.selector.isExactLabelOnly = true)
include hexact

theorem process_of_exact (entry : LokiEntry) : req.selector.process logql entry =
      if req.selector.matchesEntry logql entry then some entry else none := by
  have hprocess : req.selector.process logql entry =
      if req.selector.matchers.all (·.matchesLabels logql entry.labels) then some entry
        else none := by
    rw [process, (exactLabelMatchers_of_exact hexact).1]
    rfl
  rw [matchesEntry, hprocess]
  split <;> rfl

theorem mergeEntries_of_exact (logql) (unstable) (ents) :
    (mergeEntries logql unstable req.selector req.newestFirst ents).Perm ents ∧
      (mergeEntries logql unstable req.selector req.newestFirst ents).Pairwise req.Precedes := by
  have hperm := unstable.perm ents
  have hsort := unstable.sorted ents
  unfold mergeEntries LokiRangeRequest.Precedes
  rw [if_pos hexact]
  cases req.newestFirst with
  | false => exact ⟨hperm, hsort⟩
  | true => exact ⟨(reverse_perm _).trans hperm, pairwise_reverse.mpr hsort⟩

/-- Every page of the entries that a turn takes can be the one that the sort makes. -/
theorem exists_mergeEntries_eq (logql) (htop : IsTop req.Precedes req.limit ents page) :
    ∃ unstable, (mergeEntries logql unstable req.selector req.newestFirst ents).take
      req.limit = page := by
  obtain ⟨sorted, hperm, hsorted, htake⟩ := htop.exists_sorted
  unfold LokiRangeRequest.Precedes at hsorted
  unfold mergeEntries
  rw [if_pos hexact]
  cases hnewest : req.newestFirst <;> rw [hnewest] at hsorted
  · obtain ⟨unstable, hsort⟩ := UnstableSort.exists_sort_eq hperm hsorted
    exact ⟨unstable, by simpa [hsort] using htake⟩
  · obtain ⟨unstable, hsort⟩ := UnstableSort.exists_sort_eq ((reverse_perm _).trans hperm)
      (pairwise_reverse.mpr hsorted)
    exact ⟨unstable, by simpa [hsort] using htake⟩

/-- The matching entries are those of the eligible records that the selector accepts. -/
theorem matchingEntries_eq (partition : TopicPartition) :
      store.matchingEntries logql req partition =
      (((store.records partition).filter (store.eligible req)).map toEntry).filter
        (req.selector.matchesEntry logql) := by
  rw [← filterMap_eq_map, filterMap_filter, filter_filterMap]
  refine filterMap_congr fun record _ => ?_
  by_cases hlt : timestampUnixNanos record < 2 ^ 63
  · rw [logMatchToEntry_of_lt hlt]
    simp only [process_of_exact hexact, LogStore.eligible, toEntry, Bool.and_eq_true,
      decide_eq_true_eq, and_assoc]
    split <;> rfl
  · have hend := req.end_lt
    have hlate : store.eligible req record = false := by
      simp only [LogStore.eligible, Bool.and_eq_false_iff, decide_eq_false_iff_not]
      omega
    rw [logMatchToEntry_of_not_lt hlt, hlate]
    rfl

variable (hend : 0 ≤ req.endTimestampUnixNanos)
include hend

theorem matchesRecord_lokiQuery (engine) (limit) (partition) (record : R) :
    (lokiQuery store req limit partition).matchesRecord engine record =
      (store.eligible req record && req.labels record) := by
  obtain ⟨hstages, hmatchers⟩ := exactLabelMatchers_of_exact hexact
  rw [Bool.eq_iff_iff, matchesRecord_lokiQuery_iff, hmatchers, forall_mem_map,
    retainedQueryStart_all, lt_finish_iff hend, indexedLinePredicate, hstages]
  simp only [LogStore.eligible, LokiRangeRequest.labels, Bool.and_eq_true, all_eq_true,
    decide_eq_true_eq]
  constructor
  · rintro ⟨⟨hstart, hcutoff⟩, hfinish, htenant, hall, -⟩
    exact ⟨⟨⟨⟨htenant, hstart⟩, hfinish⟩, hcutoff⟩, hall⟩
  · rintro ⟨⟨⟨⟨htenant, hstart⟩, hfinish⟩, hcutoff⟩, hall⟩
    exact ⟨⟨hstart, hcutoff⟩, hfinish, htenant, hall, rfl⟩

/-- A partition returns its labelled entries. -/
theorem map_toEntry_select (engine) (partition) :
    ((lokiQuery store req none partition).select engine (store.records partition)).map toEntry =
      store.labelledEntries req partition := by
  have hle : ((lokiQuery store req none partition).Le : R → R → Prop) = req.Arranges := by
    rw [lokiQuery_eq]
    funext left right
    unfold LogQuery.Le LogQuery.Precedes LokiRangeRequest.Arranges
    cases req.newestFirst <;> rfl
  have hfilter : (lokiQuery store req none partition).matchesRecord engine =
      fun record : R => store.eligible req record && req.labels record := by
    funext record
    exact matchesRecord_lokiQuery hexact hend engine none partition record
  have hlimit : (lokiQuery store req none partition).limit = none := by rw [lokiQuery_eq]
  rw [LogStore.labelledEntries, LogQuery.select, Page.page, hlimit, Page.upTo_none, hfilter]
  congr!

/-- A partition that returns as many records as it was asked for. -/
theorem saturated_iff (store : LogStore R) (engine) (partitions : List TopicPartition) (lim : Nat) :
    ((partitions.map fun partition => (lokiQuery store req (some lim) partition).select engine
        (store.records partition)).any fun recs => lim ≤ recs.length) = true ↔
      ∃ part ∈ partitions.map (store.labelledEntries req), lim ≤ part.length := by
  simp only [any_map, any_eq_true, mem_map, exists_exists_and_eq_and, Function.comp,
    select_lokiQuery_limit, length_take, ← map_toEntry_select hexact hend engine, length_map,
    decide_eq_true_eq, Nat.le_min, le_refl, true_and]

/-- What all partitions return in a turn. -/
theorem map_toEntry_found (store : LogStore R) (engine) (partitions : List TopicPartition)
    (lim : Nat) : (partitions.map fun partition => (lokiQuery store req (some lim) partition).select
      engine (store.records partition)).flatten.mapM logMatchToEntry =
      .ok (taken lim (partitions.map (store.labelledEntries req))) := by
  have hfound : ((partitions.map fun partition =>
      (lokiQuery store req (some lim) partition).select
        engine (store.records partition)).flatten.map toEntry) =
      taken lim (partitions.map (store.labelledEntries req)) := by
    rw [map_flatten, map_map, taken, flatMap_map, flatMap_def]
    congr 1
    refine map_congr_left fun partition _ => ?_
    simp only [Function.comp, select_lokiQuery_limit, map_take, map_toEntry_select hexact hend]
  rw [← hfound]
  refine mapM_logMatchToEntry fun record hmem => ?_
  obtain ⟨recs, hrecords, hmem⟩ := mem_flatten.mp hmem
  obtain ⟨partition, -, rfl⟩ := mem_map.mp hrecords
  have hmatches := (mem_filter.mp (Page.mem_of_mem_page hmem)).2
  rw [matchesRecord_lokiQuery hexact hend] at hmatches
  simp only [LogStore.eligible, Bool.and_eq_true, decide_eq_true_eq] at hmatches
  have hlt := req.end_lt
  omega

variable (hdeletes : store.deletes req.tenant = []) {partitions : List TopicPartition}
  (hparts : partitions.map (store.labelledEntries req) = parts)
include hdeletes hparts

/-- One turn of the loop. -/
theorem queryLokiTurns_eq (logql : Logql) (unstable : UnstableSort) (hlt : lim < u64Bound)
    (lines bytes : Nat) :
    ∃ res : LokiQueryResult, res.entries = (mergeEntries logql unstable req.selector
          req.newestFirst (taken lim parts)).take req.limit ∧
      ((req.limit ≤ res.entries.length ∨ ∀ part ∈ parts, part.length < lim) ∧
          queryLokiTurns logql unstable store req partitions lim hlt lines bytes = .ok res ∨
        (res.entries.length < req.limit ∧ ∃ part ∈ parts, lim ≤ part.length) ∧ ∃ lines' bytes',
            queryLokiTurns logql unstable store req partitions lim hlt lines bytes =
              if _ : min (lim * 2) (u64Bound - 1) = lim then .ok res
              else queryLokiTurns logql unstable store req partitions (min (lim * 2) (u64Bound - 1))
                (lt_of_le_of_lt (Nat.min_le_right ..) (by decide)) lines' bytes') := by
  have hentries := map_toEntry_found hexact hend store logql.text partitions lim
  have hsaturated := saturated_iff hexact hend store logql.text partitions lim
  rw [hparts] at hentries hsaturated
  rw [queryLokiTurns]
  simp only [hexact, hdeletes, isEmpty_nil, Bool.and_true, Bool.true_and, if_true, hentries,
    retainEntries, bind, Except.bind, pure, Except.pure]
  split
  · rename_i hstop
    refine ⟨_, rfl, .inl ⟨?_, rfl⟩⟩
    rw [← Bool.not_eq_true, hsaturated] at hstop
    push Not at hstop
    exact hstop
  · rename_i hgo
    refine ⟨_, rfl, .inr ⟨?_, _, _, rfl⟩⟩
    rw [not_or, Bool.not_eq_false, hsaturated, not_le] at hgo
    exact hgo

/-- The loop ends in the first turn that fills the page or finds every partition exhausted. -/
theorem queryLokiTurns_spec (logql : Logql) (unstable : UnstableSort) (hpos : 0 < lim)
    (hlt : lim < u64Bound) (lines bytes : Nat) :
    ∃ res turn, queryLokiTurns logql unstable store req partitions lim hlt lines bytes = .ok res ∧
      res.entries = (mergeEntries logql unstable req.selector req.newestFirst
        (taken (lim * 2 ^ turn) parts)).take req.limit ∧
          (req.limit ≤ (taken (lim * 2 ^ turn) parts).length ∨
        ∀ part ∈ parts, part.length < lim * 2 ^ turn) ∧
      ∀ before < turn, (taken (lim * 2 ^ before) parts).length < req.limit := by
  induction hmeasure : u64Bound - lim using Nat.strong_induction_on
    generalizing lim lines bytes with
  | _ measure ih =>
    obtain ⟨res, hentries, hturn⟩ :=
      queryLokiTurns_eq hexact hend hdeletes hparts logql unstable hlt lines bytes
    have hlen : res.entries.length =
        min req.limit (taken lim parts).length := by
      rw [hentries, length_take, (mergeEntries_of_exact hexact logql unstable _).1.length_eq]
    obtain ⟨hstop, heq⟩ | ⟨⟨hshort, part, hpart, hfull⟩, lines', bytes', heq⟩ := hturn
    · refine ⟨res, 0, heq, by simpa using hentries, ?_, fun before hbefore => absurd hbefore
        (Nat.not_lt_zero before)⟩
      rw [pow_zero, Nat.mul_one]
      exact hstop.imp (fun hle => by omega) id
    · -- some partition is cut, so the next limit is not clamped
      have hbound : lim < 2 ^ 63 := by
        rw [← hparts] at hpart
        obtain ⟨partition, -, rfl⟩ := mem_map.mp hpart
        exact lt_of_le_of_lt hfull (length_labelledEntries_lt partition)
      have hnext : min (lim * 2) (u64Bound - 1) = lim * 2 := by
        unfold u64Bound
        omega
      have hnext_lt : lim * 2 < u64Bound := by
        unfold u64Bound
        omega
      simp only [hnext] at heq
      rw [dif_neg (by omega)] at heq
      obtain ⟨final, turn, hfinal, hpage, hstop, hearlier⟩ :=
        ih (u64Bound - lim * 2) (by omega) (by omega) hnext_lt lines' bytes' rfl
      have hpow : ∀ n, lim * 2 ^ (n + 1) = lim * 2 * 2 ^ n := by
        intro n
        rw [pow_succ', Nat.mul_assoc]
      refine ⟨final, turn + 1, heq.trans hfinal, ?_, ?_, ?_⟩
      · rw [hpow]
        exact hpage
      · rw [hpow]
        exact hstop
      · intro before hbefore
        cases before with
        | zero =>
          rw [pow_zero, Nat.mul_one]
          omega
        | succ before =>
          rw [hpow]
          exact hearlier before (Nat.lt_of_succ_lt_succ hbefore)

end Exact

/-- The eligible entries of all partitions of the tenant. -/
def LogStore.eligibleEntries (store : LogStore R) (req : LokiRangeRequest) : List LokiEntry :=
  (store.tenantPartitions req.tenant).flatMap fun partition =>
    ((store.records partition).filter (store.eligible req)).map toEntry

/-- The matching entries are those of the partitions of the tenant. -/
theorem flatMap_matchingEntries (hexact : req.selector.isExactLabelOnly = true) (logql : Logql)
    (store : LogStore R) : store.partitions.flatMap (store.matchingEntries logql req) =
      (store.eligibleEntries req).filter (req.selector.matchesEntry logql) := by
  have heq : store.matchingEntries logql req = fun partition =>
      (((store.records partition).filter (store.eligible req)).map toEntry).filter
        (req.selector.matchesEntry logql) :=
          funext fun partition => matchingEntries_eq hexact partition
  rw [heq, LogStore.eligibleEntries, filter_flatMap, LogStore.tenantPartitions]
  induction store.partitions with
  | nil => rfl
  | cons partition partitions ih =>
    rw [flatMap_cons, ih]
    cases hany : (store.records partition).any fun record =>
        fieldEquals record ⟨tenantField, req.tenant⟩ with
    | false =>
      have hnone : (store.records partition).filter (store.eligible req) = [] := by
        rw [filter_eq_nil_iff]
        intro record hmem
        simp [LogStore.eligible, any_eq_false.mp hany record hmem]
      rw [hnone, filter_cons_of_neg (by simp [hany])]
      rfl
    | true => rw [filter_cons_of_pos (by simpa using hany), flatMap_cons]

/-- What the partitions give is eligible. -/
theorem exists_eligible_of_gathered {gathered : List LokiEntry} (h : Gathered req.limit share
      ((store.tenantPartitions req.tenant).map (store.labelledEntries req)) gathered) :
    ∃ rest, (gathered ++ rest).Perm (store.eligibleEntries req) := by
  obtain ⟨rest, hrest⟩ := h.exists_rest
  let others (partition : TopicPartition) : List LokiEntry :=
    (((store.records partition).filter (store.eligible req)).filter (!req.labels ·)).map toEntry
  refine ⟨rest ++ (store.tenantPartitions req.tenant).flatMap others, ?_⟩
  rw [← append_assoc]
  refine (hrest.append_right _).trans ?_
  rw [← flatMap_def]
  refine (flatMap_append_perm _ _ _).trans (Perm.flatMap_left _ fun partition _ => ?_)
  have hsplit :=
    (filter_append_perm req.labels ((store.records partition).filter (store.eligible req))).map
    toEntry
  rw [map_append, filter_filter] at hsplit
  refine Perm.trans (Perm.append_right _ ((perm_insertionSort _ _).map _)) ?_
  simpa only [Bool.and_comm] using hsplit

theorem covered_iff (hexact : req.selector.isExactLabelOnly = true) : Covered logql store req ↔
      ∀ gathered, Gathered req.limit
          (firstLimit req.limit (store.tenantPartitions req.tenant).length)
          ((store.tenantPartitions req.tenant).map (store.labelledEntries req)) gathered →
        ∀ page, IsTop req.Precedes req.limit gathered page → IsTop req.Precedes req.limit
          (store.partitions.flatMap (store.matchingEntries logql req)) page := by
  unfold Covered
  dsimp only
  rw [length_map, flatMap_matchingEntries hexact]
  refine forall₂_congr fun gathered h => ?_
  obtain ⟨rest, hperm⟩ := exists_eligible_of_gathered h
  exact (forall_isTop_iff hperm).symm

/-- Without an eligible entry, or without a limit, the empty page is right. -/
theorem default_isTop (hexact : req.selector.isExactLabelOnly = true)
    (h : req.limit = 0 ∨ store.eligibleEntries req = []) : IsTop req.Precedes req.limit
      (store.partitions.flatMap (store.matchingEntries logql req)) LokiQueryResult.default.entries ∧
    Covered logql store req := by
  have htop : IsTop req.Precedes req.limit
      (store.partitions.flatMap (store.matchingEntries logql req)) [] := by
    refine ⟨.nil, ?_, _, .refl _, nofun⟩
    rw [flatMap_matchingEntries hexact]
    rcases h with h | h
    · simp [h]
    · simp [h]
  refine ⟨htop, (covered_iff hexact).mpr fun gathered hgathered page hpage => ?_⟩
  have hzero : min req.limit gathered.length = 0 := by
    rcases h with h | h
    · simp [h]
    · obtain ⟨rest, hperm⟩ := exists_eligible_of_gathered hgathered
      rw [h] at hperm
      simp [(append_eq_nil_iff.mp hperm.eq_nil).1]
  rw [length_eq_zero_iff.mp (hpage.length.trans hzero)]
  exact htop

/-- A range query with an exact selector returns the first matching entries of the tenant over all
partitions, however the sort arranges the entries of one time, exactly if the entries that the
partitions give cover them. -/
theorem query_loki_range_top_iff (hexact : req.selector.isExactLabelOnly = true)
    (hdeletes : store.deletes req.tenant = []) :
    (∀ unstable, ∃ res, queryLokiRange logql unstable store req = .ok res ∧
        IsTop req.Precedes req.limit (store.partitions.flatMap (store.matchingEntries logql req))
          res.entries) ↔
      Covered logql store req := by
  by_cases hempty :
    req.limit = 0 ∨ req.endTimestampUnixNanos < 0 ∨ store.tenantPartitions req.tenant = []
  · have hnone : req.limit = 0 ∨ store.eligibleEntries req = [] := by
      refine hempty.imp id fun hnone => flatMap_eq_nil_iff.mpr fun partition hmem => ?_
      rcases hnone with hneg | hnil
      · rw [map_eq_nil_iff, filter_eq_nil_iff]
        intro record _
        simp only [LogStore.eligible, Bool.and_eq_true, decide_eq_true_eq]
        omega
      · simp [hnil] at hmem
    have hresult : ∀ unstable, queryLokiRange logql unstable store req = .ok .default := by
      intro unstable
      unfold queryLokiRange
      split
      · rfl
      · next hpos =>
          exact if_pos (by simp [(hempty.resolve_left (by omega)).resolve_left (by omega)])
    obtain ⟨htop, hcovered⟩ := default_isTop hexact hnone
    exact iff_of_true (fun unstable => ⟨_, hresult unstable, htop⟩) hcovered
  · push Not at hempty
    obtain ⟨hlimit, hend, hpartitions⟩ := hempty
    have hpos : 0 < firstLimit req.limit (store.tenantPartitions req.tenant).length :=
      lt_of_lt_of_le Nat.zero_lt_one (Nat.le_max_right ..)
    -- every sort ends the search with the same entries
    have hrun : ∀ unstable, ∃ res gathered,
        queryLokiRange logql unstable store req = .ok res ∧
        Gathered req.limit (firstLimit req.limit (store.tenantPartitions req.tenant).length)
          ((store.tenantPartitions req.tenant).map (store.labelledEntries req)) gathered ∧
        res.entries = (mergeEntries logql unstable req.selector req.newestFirst gathered).take
          req.limit := by
      intro unstable
      obtain ⟨res, turn, hresult, hentries, hstop, hearlier⟩ := queryLokiTurns_spec hexact hend
        hdeletes rfl logql unstable hpos (firstLimit_lt req.limit_lt) 0 0
      refine ⟨res, _, ?_, .of_stop hstop hearlier, hentries⟩
      rw [queryLokiRange, if_neg (by omega), ← hresult]
      exact if_neg (by simpa using hpartitions)
    rw [covered_iff hexact]
    constructor
    · intro h gathered hgathered page hpage
      obtain ⟨unstable, hmerged⟩ := exists_mergeEntries_eq hexact logql hpage
      obtain ⟨res, other, hresult, hother, hentries⟩ := hrun unstable
      obtain ⟨final, hfinal, htop⟩ := h unstable
      rw [hresult] at hfinal
      cases hfinal
      rwa [hentries, hother.unique hgathered, hmerged] at htop
    · intro h unstable
      obtain ⟨res, gathered, hresult, hgathered, hentries⟩ := hrun unstable
      obtain ⟨hperm, hsorted⟩ := mergeEntries_of_exact hexact logql unstable gathered
      refine ⟨res, hresult, h gathered hgathered _ ?_⟩
      rw [hentries]
      exact isTop_take hsorted hperm req.limit

end Proofs

/-! ## A skewed tenant -/

/-- A record of the tenant `t` with the label `a="x"`. -/
structure SampleRecord where
  timestamp : Nat
  offset : Nat

instance : StructuralRecordView SampleRecord where
  offset := SampleRecord.offset
  timestampUnixNanos := SampleRecord.timestamp
  message _ := []
  fields _ := [⟨tenantField, ['t']⟩, ⟨labelPrefix ++ ['a'], ['x']⟩]

/-- Libraries that find nothing. -/
def sampleLogql : Logql where
  text := .ascii
  json _ := none
  jsonString _ := none
  captures _ _ := none
  trim := id
  compareDoubles _ _ := none
  parseLogQuery _ := .ok ⟨[], []⟩

def sampleSort : UnstableSort where
  sort := insertionSort fun left right => left.timestampUnixNanos ≤ right.timestampUnixNanos
  perm := perm_insertionSort _
  sorted := pairwise_insertionSort _

/-- Two entries in the first partition, and the given ones in the second. -/
def sampleStore (second : List SampleRecord) (h : second.length < 2 ^ 63) :
    LogStore SampleRecord where
  partitions := [⟨0, 0⟩, ⟨0, 1⟩]
  records partition := if partition.partitionId = 0 then [⟨10, 0⟩, ⟨9, 1⟩] else second
  deletes _ := []
  retentionCutoff := none
  nodup_partitions := by decide
  length_records partition := by
    split
    · decide
    · exact h

/-- The two newest entries with `a="x"`. -/
def sampleRequest : LokiRangeRequest where
  tenant := ['t']
  selector := ⟨[⟨['a'], .equal, ['x'], none⟩], []⟩
  startTimestampUnixNanos := 0
  endTimestampUnixNanos := 100
  limit := 2
  newestFirst := true
  end_lt := by decide
  limit_lt := by decide

/-- Asked for one entry each, the two partitions fill the page, and the second newest is missing. -/
theorem skewed_page :
    ∃ res, queryLokiRange sampleLogql sampleSort (sampleStore [⟨1, 0⟩] (by decide)) sampleRequest =
        .ok res ∧ res.entries.map (·.timestampUnixNanos) = [10, 1] := by
  rw [queryLokiRange, if_neg (by decide)]
  rw [if_neg (by decide +kernel), queryLokiTurns]
  exact ⟨_, rfl, by decide +kernel⟩

theorem query_loki_range_not_top :
    ¬ ∀ (R : Type) [StructuralRecordView R] (logql : Logql) (unstable : UnstableSort)
        (store : LogStore R) (req : LokiRangeRequest),
      req.selector.isExactLabelOnly = true → store.deletes req.tenant = [] →
      ∃ res, queryLokiRange logql unstable store req = .ok res ∧ IsTop req.Precedes req.limit
          (store.partitions.flatMap (store.matchingEntries logql req)) res.entries := by
  intro h
  obtain ⟨res, hresult, htop⟩ := h SampleRecord sampleLogql sampleSort
    (sampleStore [⟨1, 0⟩] (by decide)) sampleRequest rfl rfl
  obtain ⟨skewed, hskewed, htimes⟩ := skewed_page
  rw [hskewed] at hresult
  cases hresult
  obtain ⟨rest, hperm, hrest⟩ := htop.chosen
  have hall := hperm.map LokiEntry.timestampUnixNanos
  have htimes_all : ((sampleStore [⟨1, 0⟩] (by decide)).partitions.flatMap
      ((sampleStore [⟨1, 0⟩] (by decide)).matchingEntries sampleLogql sampleRequest)).map
        LokiEntry.timestampUnixNanos = [10, 9, 1] := by decide +kernel
  rw [htimes_all, map_append, htimes] at hall
  -- the entry at time 9 is left out, and the one at time 1 is not
  have hnine : (9 : Int) ∈ rest.map LokiEntry.timestampUnixNanos := by
    have hmem : (9 : Int) ∈ [10, 1] ++ rest.map LokiEntry.timestampUnixNanos :=
      hall.mem_iff.mpr (by decide)
    exact (mem_append.mp hmem).resolve_left (by decide)
  have hone : (1 : Int) ∈ res.entries.map LokiEntry.timestampUnixNanos := by
    rw [htimes]
    decide
  obtain ⟨late, hlate, hlateTime⟩ := mem_map.mp hnine
  obtain ⟨early, hearly, hearlyTime⟩ := mem_map.mp hone
  have hprecedes : late.timestampUnixNanos ≤ early.timestampUnixNanos :=
    hrest early hearly late hlate
  omega

theorem query_loki_range_top_sample : ∃ res,
    queryLokiRange sampleLogql sampleSort (sampleStore [] (by decide)) sampleRequest = .ok res ∧
      IsTop sampleRequest.Precedes sampleRequest.limit
        ((sampleStore [] (by decide)).partitions.flatMap
          ((sampleStore [] (by decide)).matchingEntries sampleLogql sampleRequest))
        res.entries := by
  refine (query_loki_range_top_iff rfl rfl).mpr (fun gathered hgathered => ?_) sampleSort
  rw [hgathered.eq_flatten (by decide +kernel)]
  have heq : (((sampleStore [] (by decide)).tenantPartitions sampleRequest.tenant).map
      ((sampleStore [] (by decide)).labelledEntries sampleRequest)).flatten =
    (sampleStore [] (by decide)).partitions.flatMap
      ((sampleStore [] (by decide)).matchingEntries sampleLogql sampleRequest) := rfl
  rw [heq]
  exact .refl (by decide +kernel)

end ShardTelemetry.Loki
