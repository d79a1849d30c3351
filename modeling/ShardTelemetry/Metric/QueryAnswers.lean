import Mathlib.Data.List.Induction
import ShardTelemetry.Metric.Query
import ShardTelemetry.Metric.StripeHolds

/-!
# What a metric query answers

After any history, a query answers with the points that it asks for, the newest of each series and
time, in order and up to its limit (`run_query_answers`).  All ways of a query go over the points
that the stripe still has of the series that match (`Wanted`).  As it has the newest of each series
and time, the winners among these are the winners among all points that were accepted
(`isNewest_iff_selected`).

The offset to start from applies to every query, and a query for one series that has it is answered
in the order of offsets, with or without a partition (`Reading.served`).
-/

namespace ShardTelemetry.Metric

open List MetricStripe Newest

variable {I A E : Type}

/-! ## Answers -/

/-- Whether the offset to start from applies to a query, and whether the answer is in the order of
offsets. -/
structure Reading where
  cursor : MetricQuery → Bool
  byOffset : MetricQuery → Bool

/-- Offsets matter with a partition only. -/
def Reading.partitioned : Reading := ⟨(·.partition.isSome), (·.partition.isSome)⟩

/-- How queries are served. -/
def Reading.served : Reading :=
  ⟨fun _ => true, fun query => query.partition.isSome || query.series.isSome &&
    query.startOffset.isSome⟩

def Reading.order (reading : Reading) (query : MetricQuery)
    (left right : DurableMetricPoint I A E) : Prop :=
  if reading.byOffset query then left.offset ≤ right.offset
  else toLex (left.timestamp, left.offset) ≤ toLex (right.timestamp, right.offset)

section Spec

variable (settings : Settings I A E) (accepted : List (DurableMetricPoint I A E))
  (query : MetricQuery)

/-- A point that a query asks for: the newest of its series and time among the accepted ones. -/
structure Selected (point : DurableMetricPoint I A E) : Prop where
  newest : IsNewest (pointKey settings) (·.offset) accepted point
  series : ∀ series ∈ query.series, seriesOf settings point = series
  identity : metricIdentityMatches settings query point.identity = true
  fields : metricExactSeriesPointMatches query point = true

/-- The selected points in order, each once, up to the limit. -/
def Answers (reading : Reading) (result : List (DurableMetricPoint I A E)) : Prop :=
  ∃ points : List (DurableMetricPoint I A E), points.Nodup ∧
    (∀ point, point ∈ points ↔ Selected settings accepted query point ∧
      (reading.cursor query = true → metricQueryCursorMatches query point = true)) ∧
    points.Pairwise (reading.order query) ∧ result = points.take (max query.limit 1)

/-- A result that serves the query. -/
def Served (result : TelemetryResult (List (DurableMetricPoint I A E))) : Prop :=
  ∃ res, result = .ok res ∧ Answers settings accepted query .served res

/-- A stored point that a query asks for. -/
structure Wanted (stripe : MetricStripe I A E)
    (point : DurableMetricPoint I A E) : Prop where
  stored : Stored settings stripe point
  series : ∀ series ∈ query.series, seriesOf settings point = series
  identity : metricIdentityMatches settings query point.identity = true
  fields : metricExactSeriesPointMatches query point = true

/-- The points that are stored of a series. -/
def seriesPoints (stripe : MetricStripe I A E) (entry : BitVec 128 × SeriesHead I A E) :
    List (DurableMetricPoint I A E) :=
  entry.2.points ++ (stripe.chunksOf entry.1).flatMap (chunkPoints settings)

end Spec

variable {settings : Settings I A E} {offered accepted : List (DurableMetricPoint I A E)}
  {query : MetricQuery} {st : MetricStripe I A E} {series : BitVec 128} {head : SeriesHead I A E}
  {points : List (DurableMetricPoint I A E)}

/-! ## Stored points -/

section

variable (h : Holds settings offered accepted st)
include h

theorem Holds.accepted_of_stored (stored : Stored settings st pt) : pt ∈ accepted := by
  rcases stored with ⟨entry, mem, inside⟩ | ⟨entry, mem, inside⟩
  · exact (h.heads entry mem).accepted pt inside
  · exact (h.chunks entry mem).accepted pt inside

/-- The head of the series of a stored point. -/
theorem Holds.head_of_stored (stored : Stored settings st pt) :
    ∃ head, (seriesOf settings pt, head) ∈ st.series ∧ pt.identity = head.identity ∧
      pt.recordRef.topicPartition = head.topicPartition := by
  rcases stored with ⟨⟨series, head⟩, mem, inside⟩ | ⟨⟨series, chunk⟩, mem, inside⟩
  · have ok := h.heads _ mem
    exact ⟨head, ok.seriesOf_eq inside ▸ mem, ok.identity pt inside, ok.partition pt inside⟩
  · obtain ⟨head, known, owns⟩ := (h.chunks _ mem).head
    exact ⟨head, h.seriesOf_eq mem inside ▸ known, owns pt inside⟩

theorem Holds.mem_seriesPoints (known : (series, head) ∈ st.series) :
    pt ∈ seriesPoints settings st (series, head) ↔
      Stored settings st pt ∧ seriesOf settings pt = series := by
  rw [seriesPoints, mem_append, mem_flatMap]
  constructor
  · rintro (inside | ⟨chunk, mem, inside⟩)
    · exact ⟨.inl ⟨_, known, inside⟩, (h.heads _ known).seriesOf_eq inside⟩
    · have mem := mem_chunksOf.mp mem
      exact ⟨.inr ⟨_, mem, inside⟩, h.seriesOf_eq mem inside⟩
  · rintro ⟨stored, rfl⟩
    rcases stored with ⟨⟨series, other⟩, mem, inside⟩ | ⟨⟨series, chunk⟩, mem, inside⟩
    · obtain rfl := (h.heads _ mem).seriesOf_eq inside
      obtain rfl := eq_of_mem h.nodup known mem
      exact .inl inside
    · exact .inr ⟨chunk, mem_chunksOf.mpr (h.seriesOf_eq mem inside ▸ mem), inside⟩

/-- The newest of the wanted points are the selected ones. -/
theorem isNewest_iff_selected (wanted : ∀ pt, pt ∈ points ↔ Wanted settings query st pt) :
    IsNewest (pointKey settings) (·.offset) points pt ↔ Selected settings accepted query pt := by
  rw [isNewest_iff_of_between accepted]
  · constructor
    · intro ⟨newest, mem⟩
      obtain ⟨-, series, ident, fields⟩ := (wanted pt).mp mem
      exact ⟨newest, series, ident, fields⟩
    · intro ⟨newest, series, ident, fields⟩
      exact ⟨newest, (wanted pt).mpr ⟨h.newest pt newest, series, ident, fields⟩⟩
  · exact fun pt mem => h.accepted_of_stored ((wanted pt).mp mem).stored
  · intro other mem newest found same
    obtain ⟨stored, series, ident, fields⟩ := (wanted other).mp mem
    have stored' := h.newest newest found
    have key := Prod.mk.inj same
    have one : seriesOf settings newest = seriesOf settings other := BitVec.eq_of_toNat_eq key.1
    -- both belong to one head, which decides all but the time
    obtain ⟨left, hl, identity₁, partition₁⟩ := h.head_of_stored stored'
    obtain ⟨right, hr, identity₂, partition₂⟩ := h.head_of_stored stored
    rw [one] at hl
    obtain rfl := eq_of_mem h.nodup hl hr
    refine (wanted newest).mpr ⟨stored', fun s hs => one.trans (series s hs), ?_, ?_⟩
    · rw [identity₁, ← identity₂]
      exact ident
    · unfold metricExactSeriesPointMatches metricPointTimeMatches at fields ⊢
      rw [partition₁, ← partition₂, show newest.timestamp = other.timestamp from key.2]
      exact fields

end

/-! ## Points outside the bounds -/

theorem filter_outside (bounds : ∀ pt ∈ points, low ≤ pt.timestamp ∧ pt.timestamp ≤ high)
    (out : query.outside low high = true) :
    points.filter (metricExactSeriesPointMatches query) = [] := by
  refine filter_eq_nil_iff.mpr fun pt mem fits => ?_
  obtain ⟨above, below⟩ := bounds pt mem
  simp only [metricExactSeriesPointMatches, metricPointTimeMatches, Bool.and_eq_true,
    Option.all_eq_true, decide_eq_true_eq] at fits
  simp only [MetricQuery.outside, Bool.or_eq_true, Option.any_eq_true, decide_eq_true_eq] at out
  rcases out with ⟨start, known, before⟩ | ⟨stop, known, after⟩
  · have := fits.2.1 start known
    omega
  · have := fits.2.2 stop known
    omega

/-- A chunk gives its points of a query, whether it is passed over or decoded. -/
theorem ChunkOk.filter_outside (ok : ChunkOk settings accepted st series chunk)
    (out : query.outside chunk.minTimestampUnixNanos chunk.maxTimestampUnixNanos = true) :
    (chunkPoints settings chunk).filter (metricExactSeriesPointMatches query) = [] :=
  Metric.filter_outside ok.bounds out

theorem Holds.chunkOk (h : Holds settings offered accepted st) {chunk : SealedMetricChunk}
    (mem : chunk ∈ st.chunksOf series) : ChunkOk settings accepted st series chunk :=
  h.chunks _ (mem_chunksOf.mp mem)

/-! ## Answers from winners -/

/-- The selected points, each once, sorted. -/
theorem answers_of_sorted [LE κ] {key : DurableMetricPoint I A E → κ}
    (sort : SortBy key)
    (order : ∀ left right : DurableMetricPoint I A E,
      Reading.served.order query left right ↔ key left ≤ key right)
    (nodup : points.Nodup) (sel : ∀ pt, pt ∈ points ↔ Selected settings accepted query pt) :
    Answers settings accepted query .served
      ((sort.sort (points.filter (metricQueryCursorMatches query))).take (max query.limit 1)) := by
  refine ⟨sort.sort (points.filter (metricQueryCursorMatches query)), ?_, ?_, ?_, rfl⟩
  · exact (sort.perm _).nodup_iff.mpr (nodup.filter _)
  · intro pt
    rw [(sort.perm _).mem_iff, mem_filter, sel]
    exact and_congr_right fun _ => ⟨fun cursor _ => cursor, fun cursor => cursor rfl⟩
  · exact (sort.sorted _).imp fun {left right} le => (order left right).mpr le

/-- The winners among the wanted points. -/
theorem selected_winners (h : Holds settings offered accepted st)
    (wanted : ∀ pt, pt ∈ points ↔ Wanted settings query st pt) :
    (winners (pointKey settings) (·.offset) points).Nodup ∧ ∀ pt,
      pt ∈ winners (pointKey settings) (·.offset) points ↔ Selected settings accepted query pt := by
  have determined : Determined (pointKey settings) (·.offset) points :=
    h.determined.subset fun pt mem => h.accepted_of_stored ((wanted pt).mp mem).stored
  have resolved := resolved_winners determined
  refine ⟨resolved.increasing.imp fun lt eq => absurd (congrArg _ eq) lt.ne, fun pt => ?_⟩
  exact (resolved.mem_iff pt).trans (isNewest_iff_selected h wanted)

/-- In one series, times tell points apart as series and times do. -/
theorem timestamp_eq_iff (one : query.series = some series)
    (wanted : ∀ pt, pt ∈ points ↔ Wanted settings query st pt) : ∀ left ∈ points, ∀ right ∈ points,
      left.timestamp = right.timestamp ↔ pointKey settings left = pointKey settings right := by
  intro left hl right hr
  have same : seriesOf settings left = seriesOf settings right :=
    (((wanted left).mp hl).series series one).trans (((wanted right).mp hr).series series one).symm
  unfold pointKey
  rw [same]
  exact ⟨fun eq => by rw [eq], fun eq => (Prod.mk.inj eq).2⟩

section

variable (h : Holds settings offered accepted st) (one : query.series = some series)
  (wanted : ∀ pt, pt ∈ points ↔ Wanted settings query st pt)
include h one wanted

theorem isNewest_timestamp_iff_selected :
    IsNewest (·.timestamp) (·.offset) points pt ↔ Selected settings accepted query pt :=
  (isNewest_congr_key (timestamp_eq_iff one wanted)).trans (isNewest_iff_selected h wanted)

/-- The winners among the wanted points of one series, by their times. -/
theorem selected_exact_winners :
    (winners (·.timestamp) (·.offset) points).Pairwise (·.timestamp < ·.timestamp) ∧ ∀ pt,
      pt ∈ winners (·.timestamp) (·.offset) points ↔ Selected settings accepted query pt := by
  have determined : Determined (·.timestamp) (·.offset) points := fun left hl right hr same =>
    h.determined left (h.accepted_of_stored ((wanted left).mp hl).stored) right
      (h.accepted_of_stored ((wanted right).mp hr).stored)
      ((timestamp_eq_iff one wanted left hl right hr).mp same)
  have resolved := resolved_winners determined
  exact ⟨resolved.increasing, fun pt => (resolved.mem_iff pt).trans
    (isNewest_timestamp_iff_selected h one wanted)⟩

end

/-! ## All series -/

section AllSeries

theorem mem_posting [DecidableEq κ] {key : κ} : series ∈ posting ix key ↔ (key, series) ∈ ix := by
  rw [posting, mem_dedup, mem_map]
  constructor
  · rintro ⟨⟨key', series'⟩, mem, rfl⟩
    obtain ⟨mem, same⟩ := mem_filter.mp mem
    exact of_decide_eq_true same ▸ mem
  · exact fun mem => ⟨_, mem_filter.mpr ⟨mem, decide_eq_true rfl⟩, rfl⟩

/-- A series is proposed if it is in all lists that the query looks up. -/
theorem mem_queryCandidates : (∀ list ∈ st.queryCandidates query, series ∈ list) ↔
    (∀ name ∈ query.name, (name, series) ∈ st.nameIndex) ∧
      ∀ label ∈ query.exactLabels, (label, series) ∈ st.labelIndex := by
  have start : (∀ list ∈ query.name.map (posting st.nameIndex), series ∈ list) ↔
      ∀ name ∈ query.name, (name, series) ∈ st.nameIndex := by
    cases query.name with
    | none => simp
    | some name => simp [mem_posting]
  rw [← start, queryCandidates]
  generalize query.name.map (posting st.nameIndex) = cand
  induction query.exactLabels generalizing cand with
  | nil => simp
  | cons label rest ih =>
    refine (ih _).trans ?_
    rw [forall_mem_cons, ← and_assoc]
    refine and_congr_left fun _ => ?_
    cases cand with
    | none => simp [mem_posting]
    | some existing => simp [mem_posting]

/-- A series gives the points that are stored of it. -/
theorem Holds.collectMetricSeriesMatches (h : Holds settings offered accepted st)
    (winners) (entry) : st.collectMetricSeriesMatches settings query winners entry =
      .ok ((((seriesPoints settings st entry).filter (metricExactSeriesPointMatches query)).map
        (entry.1, ·)).foldl retainMetricWinner winners) := by
  rw [MetricStripe.collectMetricSeriesMatches, foldlM_eq_ok (g := fun winners chunk =>
    (((chunkPoints settings chunk).filter (metricExactSeriesPointMatches query)).map
      (entry.1, ·)).foldl
      retainMetricWinner winners)]
  · rw [seriesPoints, filter_append, map_append, foldl_append, filter_flatMap, map_flatMap,
      foldl_flatMap]
  · intro winners chunk mem
    have ok := h.chunkOk mem
    unfold collectChunk
    split
    · next out => rw [ok.filter_outside out, map_nil, foldl_nil]
    · rw [ok.decodes]
      rfl

variable [DecidableEq A] [DecidableEq E]

section

variable (h : Holds settings offered accepted st) (storable : Storable settings offered)
include h storable

/-- A point of the series of a head has the identity of the head. -/
theorem Holds.identity_of_series (known : (series, head) ∈ st.series) (offers : pt ∈ offered)
    (same : seriesOf settings pt = series) : pt.identity = head.identity := by
  obtain ⟨other, offered', ident⟩ := h.known _ known
  rw [← ident]
  refine storable.collisionFree pt offers other offered' (same.trans ?_)
  rw [seriesOf, ident]
  exact (h.heads _ known).series.symm

/-- The indexes propose a series just if it has the name and the labels. -/
theorem Holds.proposed_iff (known : (series, head) ∈ st.series) (query) :
    (∀ list ∈ st.queryCandidates query, series ∈ list) ↔
      (∀ name ∈ query.name, name = settings.name head.identity) ∧
        ∀ label ∈ query.exactLabels, label ∈ prometheusStringLabels settings head.identity := by
  rw [mem_queryCandidates]
  refine and_congr (forall₂_congr fun name _ => ⟨fun mem => ?_, ?_⟩)
    (forall₂_congr fun label _ => ⟨fun mem => ?_, h.labels _ known label⟩)
  · obtain ⟨pt, offers, same, rfl⟩ := h.named _ mem
    rw [h.identity_of_series storable known offers same]
  · rintro rfl
    exact h.names _ known
  · obtain ⟨pt, offers, same, inside⟩ := h.labelled _ mem
    rwa [h.identity_of_series storable known offers same] at inside

theorem Holds.mem_queriedHeads (orders) {entry : BitVec 128 × SeriesHead I A E} :
    entry ∈ st.queriedHeads settings orders query ↔
      entry ∈ st.series ∧ metricIdentityMatches settings query entry.2.identity = true := by
  have proposed : entry ∈ st.proposedHeads settings orders query ↔
      entry ∈ st.series ∧ ∀ list ∈ st.queryCandidates query, entry.1 ∈ list := by
    unfold proposedHeads
    cases st.queryCandidates query with
    | none => simp [(settings.order_perm _).mem_iff]
    | some candidates =>
      simp only [mem_filterMap, (orders.candidates_perm _).mem_iff, Option.map_eq_some_iff,
        Option.mem_def, Option.some.injEq, forall_eq']
      constructor
      · rintro ⟨series, mem, head, found, rfl⟩
        exact ⟨mem_of_head? found, mem⟩
      · intro ⟨known, mem⟩
        exact ⟨entry.1, mem, entry.2, head?_of_mem h.nodup known, rfl⟩
  rw [queriedHeads, mem_filter, proposed, and_assoc]
  refine and_congr_right fun known => ?_
  rw [h.proposed_iff storable known query, metricIdentityMatches, metricHeadMatches]
  simp only [Bool.and_eq_true, decide_eq_true_eq, Option.all_eq_true, all_eq_true, Option.mem_def]
  tauto

theorem Holds.querySeries (orders : Orders I A E) (all : query.series = none) :
    Served settings accepted query (st.querySeries settings orders query (max query.limit 1)) := by
  let points := (st.queriedHeads settings orders query).flatMap fun entry =>
    (seriesPoints settings st entry).filter (metricExactSeriesPointMatches query)
  have wanted : ∀ pt, pt ∈ points ↔ Wanted settings query st pt := by
    intro pt
    rw [mem_flatMap]
    constructor
    · rintro ⟨entry, mem, inside⟩
      obtain ⟨known, ident⟩ := (h.mem_queriedHeads storable orders).mp mem
      obtain ⟨inside, fields⟩ := mem_filter.mp inside
      obtain ⟨stored, same⟩ := (h.mem_seriesPoints known).mp inside
      obtain ⟨head, known', identity', -⟩ := h.head_of_stored stored
      rw [same] at known'
      obtain rfl := eq_of_mem h.nodup known known'
      exact ⟨stored, by simp [all], identity' ▸ ident, fields⟩
    · intro ⟨stored, _, ident, fields⟩
      obtain ⟨head, known, identity', -⟩ := h.head_of_stored stored
      exact ⟨_, (h.mem_queriedHeads storable orders).mpr ⟨known, identity' ▸ ident⟩,
        mem_filter.mpr ⟨(h.mem_seriesPoints known).mpr ⟨stored, rfl⟩, fields⟩⟩
  -- each point goes with its series
  have paired : (st.queriedHeads settings orders query).flatMap (fun entry =>
      ((seriesPoints settings st entry).filter (metricExactSeriesPointMatches query)).map
        (entry.1, ·)) =
      points.map fun pt => (seriesOf settings pt, pt) := by
    rw [map_flatMap]
    refine flatMap_congr fun entry mem => map_congr_left fun pt inside => ?_
    obtain ⟨known, -⟩ := (h.mem_queriedHeads storable orders).mp mem
    rw [((h.mem_seriesPoints known).mp (mem_filter.mp inside).1).2]
  have got : (st.queriedHeads settings orders query).foldlM
      (st.collectMetricSeriesMatches settings query) [] =
      .ok ((winners (pointKey settings) (·.offset) points).map
        fun pt => (seriesOf settings pt, pt)) := by
    rw [foldlM_eq_ok fun winners entry _ => h.collectMetricSeriesMatches winners entry,
      ← foldl_flatMap, paired]
    exact congrArg Except.ok (winners_map _ points)
  obtain ⟨nodup, sel⟩ := selected_winners h wanted
  refine ⟨_, bind_ok got rfl, ?_⟩
  rw [map_map, show ((·.2) ∘ fun pt => (seriesOf settings pt, pt)) =
    (id : DurableMetricPoint I A E → _) from rfl, map_id]
  cases part : query.partition with
  | some _ =>
    refine answers_of_sorted orders.byOffset (fun left right => ?_) nodup sel
    simp [Reading.order, Reading.served, part]
  | none =>
    refine answers_of_sorted orders.byTime (fun left right => ?_) nodup sel
    simp [Reading.order, Reading.served, part, all]

end

end AllSeries

/-! ## One series -/

section OneSeries

/-- The points of a query for one series: those of the chunks, and then those of the head. -/
def exactPoints (settings : Settings I A E) (query : MetricQuery) (stripe : MetricStripe I A E)
    (head : SeriesHead I A E) (series : BitVec 128) : List (DurableMetricPoint I A E) :=
  ((stripe.chunksOf series).flatMap (chunkPoints settings) ++ head.points).filter
    (metricExactSeriesPointMatches query)

/-! ### Chunk after chunk -/

/-- The selected points in the order of their times answer a query that does not name offsets. -/
theorem answers_of_increasing (part : query.partition = none) (offset : query.startOffset = none)
    (increasing : points.Pairwise (·.timestamp < ·.timestamp))
    (sel : ∀ pt, pt ∈ points ↔ Selected settings accepted query pt) :
    Answers settings accepted query .served (points.take (max query.limit 1)) := by
  refine ⟨points, increasing.imp fun lt eq => absurd (congrArg _ eq) lt.ne, fun pt => ?_, ?_, rfl⟩
  · rw [sel]
    exact ⟨fun h => ⟨h, fun _ => by simp [metricQueryCursorMatches, offset]⟩, And.left⟩
  · refine increasing.imp fun {left right} lt => ?_
    rw [Reading.order, if_neg (by simp [Reading.served, part, offset])]
    exact (Prod.Lex.toLex_lt_toLex.mpr (.inl lt)).le

/-- The first point of a head is the earliest, and the last one the latest. -/
theorem HeadOk.bounds (ok : HeadOk settings accepted series head) (mem : pt ∈ head.points) :
    (ExactMetricSource.head head).minTimestampUnixNanos ≤ pt.timestamp ∧
      pt.timestamp ≤ (ExactMetricSource.head head).maxTimestampUnixNanos := by
  have increasing := ok.increasing
  unfold ExactMetricSource.minTimestampUnixNanos ExactMetricSource.maxTimestampUnixNanos
  dsimp only
  constructor
  · cases split : head.points with
    | nil => exact absurd (split ▸ mem) not_mem_nil
    | cons first rest =>
      rw [split] at mem increasing
      rcases mem_cons.mp mem with rfl | mem
      · exact le_rfl
      · exact ((pairwise_cons.mp increasing).1 pt mem).le
  · cases split : head.points using reverseRecOn with
    | nil => exact absurd (split ▸ mem) not_mem_nil
    | append_singleton front last =>
      rw [split] at mem increasing
      rw [getLast?_concat]
      rcases mem_append.mp mem with mem | mem
      · exact ((pairwise_append.mp increasing).2.2 pt mem last (by simp)).le
      · rw [mem_singleton.mp mem]
        exact le_rfl

variable {kept : List (DurableMetricPoint I A E)}

/-- Points after a chunk, if the chunks and the head follow each other. -/
theorem after_first (ok : ∀ chunk ∈ first :: rest, ChunkOk settings accepted st series chunk)
    (disjoint : chunksAreDisjoint (first :: rest) = true)
    (last : ∀ chunk ∈ (first :: rest).getLast?, ∀ pt ∈ later,
      chunk.maxTimestampUnixNanos < pt.timestamp) :
    ∀ pt ∈ rest.flatMap (chunkPoints settings) ++ later,
      first.maxTimestampUnixNanos < pt.timestamp := by
  induction rest generalizing first with
  | nil => exact fun pt mem => last first rfl pt mem
  | cons second rest ih =>
    obtain ⟨apart, disjoint⟩ := Bool.and_eq_true_iff.mp disjoint
    have apart := of_decide_eq_true apart
    have second_ok := ok second (by simp)
    have next := ih (forall_mem_cons.mp ok).2 disjoint
      (by simpa [getLast?_cons_cons] using last)
    intro pt mem
    rw [flatMap_cons, append_assoc, mem_append] at mem
    rcases mem with mem | mem
    · exact apart.trans_le (second_ok.bounds pt mem).1
    · -- the second chunk is not empty
      obtain ⟨inside, here⟩ := exists_mem_of_ne_nil _ second_ok.nonempty
      obtain ⟨low, high⟩ := second_ok.bounds inside here
      exact apart.trans_le (low.trans (high.trans (next pt mem).le))

theorem pushUntil_eq (short : sel.length < limit) :
    pushUntil limit sel points =
      ((sel ++ points).take limit, decide (limit ≤ (sel ++ points).length)) := by
  induction points generalizing sel with
  | nil =>
    rw [pushUntil, append_nil, take_of_length_le short.le, decide_eq_false (Nat.not_le.mpr short)]
  | cons pt rest ih =>
    have length : (sel ++ [pt]).length = sel.length + 1 := by simp
    rw [pushUntil, append_cons sel pt rest]
    by_cases enough : (sel ++ [pt]).length = limit
    · rw [if_pos enough, take_append_of_le_length enough.ge, take_of_length_le enough.le,
        decide_eq_true]
      rw [length_append]
      omega
    · rw [if_neg enough, ih (by omega)]

section

variable {chunks : List SealedMetricChunk}
  (ok : ∀ chunk ∈ chunks, ChunkOk settings accepted st series chunk)
include ok

theorem increasing_of_disjoint (disjoint : chunksAreDisjoint chunks = true)
    (last : ∀ chunk ∈ chunks.getLast?, ∀ pt ∈ later, chunk.maxTimestampUnixNanos < pt.timestamp)
    (increasing : later.Pairwise (·.timestamp < ·.timestamp)) :
    (chunks.flatMap (chunkPoints settings) ++ later).Pairwise (·.timestamp < ·.timestamp) := by
  induction chunks with
  | nil => exact increasing
  | cons first rest ih =>
    have after := after_first ok disjoint last
    rw [flatMap_cons, append_assoc, pairwise_append]
    have first_ok := ok first mem_cons_self
    refine ⟨first_ok.increasing, ?_, fun pt mem other inside => ?_⟩
    · cases rest with
      | nil => exact increasing
      | cons second rest =>
        refine ih (forall_mem_cons.mp ok).2 (Bool.and_eq_true_iff.mp disjoint).2 ?_
        simpa [getLast?_cons_cons] using last
    · exact (first_ok.bounds pt mem).2.trans_lt (after other inside)

theorem takeChunks_eq (short : sel.length < limit) : takeChunks settings head limit chunks sel =
      .ok ((sel ++ (chunks.flatMap (chunkPoints settings) ++ head.points)).take limit) := by
  induction chunks generalizing sel with
  | nil => rw [takeChunks, flatMap_nil, nil_append, take_append, take_of_length_le short.le]
  | cons chunk rest ih =>
    rw [takeChunks, (ok chunk mem_cons_self).decodes]
    have taken : sel ++ (chunkPoints settings chunk).take (limit - sel.length) =
        (sel ++ chunkPoints settings chunk).take limit := by
      rw [take_append, take_of_length_le short.le]
    show (if _ then _ else _) = _
    rw [taken, flatMap_cons, append_assoc, ← append_assoc sel]
    by_cases enough : limit ≤ (sel ++ chunkPoints settings chunk).length
    · rw [if_pos (by rw [length_take, min_eq_left enough]), take_append_of_le_length enough]
      rfl
    · have fewer := Nat.not_le.mp enough
      rw [if_neg (by rw [length_take]; omega), take_of_length_le fewer.le,
        ih (forall_mem_cons.mp ok).2 fewer]

theorem pushChunks_eq (short : sel.length < limit) :
      pushChunks settings query head limit chunks sel =
      .ok ((sel ++ (chunks.flatMap (chunkPoints settings) ++ head.points).filter
        (metricExactSeriesPointMatches query)).take limit) := by
  induction chunks generalizing sel with
  | nil => rw [pushChunks, pushUntil_eq short, flatMap_nil, nil_append]
  | cons chunk rest ih =>
    obtain ⟨here, later⟩ := forall_mem_cons.mp ok
    rw [pushChunks, flatMap_cons, append_assoc, filter_append]
    split
    · next out => rw [here.filter_outside out, nil_append, ih later short]
    · rw [here.decodes, ← append_assoc sel]
      show (if _ then _ else _) = _
      rw [pushUntil_eq short]
      dsimp only
      split
      · next enough =>
        rw [take_append_of_le_length (of_decide_eq_true enough)]
        rfl
      · next enough =>
        have fewer := Nat.not_le.mp fun le => enough (decide_eq_true le)
        rw [take_of_length_le fewer.le, ih later fewer]

end

/-- A query without bounds takes all points. -/
theorem filter_unbounded (unbounded : query.unbounded = true) :
    points.filter (metricExactSeriesPointMatches query) = points := by
  simp only [MetricQuery.unbounded, Bool.and_eq_true, Option.isNone_iff_eq_none] at unbounded
  obtain ⟨⟨⟨part, -⟩, start⟩, stop⟩ := unbounded
  refine filter_eq_self.mpr fun pt _ => ?_
  simp [metricExactSeriesPointMatches, metricPointTimeMatches, part, start, stop]

/-! ### By the least times -/

/-- The points of a source. -/
def pointsIn (settings : Settings I A E) :
    ExactMetricSource I A E → List (DurableMetricPoint I A E)
  | .head head => head.points
  | .chunk chunk => chunkPoints settings chunk

/-- A source has points within its bounds. -/
structure SourceOk (settings : Settings I A E)
    (source : ExactMetricSource I A E) : Prop where
  decodes : sourcePoints settings source = .ok (pointsIn settings source)
  bounds : ∀ point ∈ pointsIn settings source,
    source.minTimestampUnixNanos ≤ point.timestamp ∧ point.timestamp ≤ source.maxTimestampUnixNanos

theorem Holds.sourceOk (h : Holds settings offered accepted st) (known : (series, head) ∈ st.series)
    (mem : source ∈ st.exactSources head series) : SourceOk settings source := by
  rcases mem_append.mp mem with mem | mem
  · split at mem
    · cases mem
    · obtain rfl := mem_singleton.mp mem
      exact ⟨rfl, fun pt inside => (h.heads _ known).bounds inside⟩
  · obtain ⟨chunk, inside, rfl⟩ := mem_map.mp mem
    exact ⟨(h.chunkOk inside).decodes, (h.chunkOk inside).bounds⟩

/-- The last of the first so many winners is the latest of them. -/
theorem timestamp_le_of_mem_take
    (increasing : kept.Pairwise (·.timestamp < ·.timestamp)) (mem : winner ∈ kept.take limit)
    (found : kept[limit - 1]? = some cutoff) : winner.timestamp ≤ cutoff.timestamp := by
  obtain ⟨ix, bound, rfl⟩ := mem_iff_getElem.mp mem
  obtain ⟨inside, rfl⟩ := List.getElem?_eq_some_iff.mp found
  rw [length_take] at bound
  rw [getElem_take]
  rcases Nat.lt_or_ge ix (limit - 1) with lt | ge
  · exact (pairwise_iff_getElem.mp increasing _ _ _ inside lt).le
  · have last : ix = limit - 1 := by omega
    simp only [last, le_refl]

/-- The loop may stop early, but not before the first so many winners are found. -/
theorem overlapping_take (query) (limit) (ok : ∀ source ∈ sources, SourceOk settings source)
    (sorted : sources.Pairwise (·.minTimestampUnixNanos ≤ ·.minTimestampUnixNanos))
    (increasing : kept.Pairwise (·.timestamp < ·.timestamp)) :
    ∃ winners, overlapping settings query limit sources kept = .ok winners ∧
      winners.take limit = (((sources.flatMap (pointsIn settings)).filter
        (metricExactSeriesPointMatches query)).foldl retainExactMetricWinner kept).take limit := by
  induction sources generalizing kept with
  | nil => exact ⟨kept, rfl, rfl⟩
  | cons source rest ih =>
    obtain ⟨here, later⟩ := forall_mem_cons.mp ok
    obtain ⟨least, sorted'⟩ := pairwise_cons.mp sorted
    rw [overlapping]
    split
    · next out =>
      rw [flatMap_cons, filter_append, filter_outside here.bounds out, nil_append]
      exact ih later sorted' increasing
    split
    · next enough =>
      -- all that is left comes after the winners so far
      simp only [Bool.and_eq_true, decide_eq_true_eq, Option.any_eq_true] at enough
      obtain ⟨long, cutoff, found, late⟩ := enough
      refine ⟨kept, rfl, (take_foldl_retain increasing long fun winner hw pt mem => ?_).symm⟩
      have above : source.minTimestampUnixNanos ≤ pt.timestamp := by
        obtain ⟨other, hs, inside⟩ := mem_flatMap.mp (mem_filter.mp mem).1
        refine le_trans ?_ ((ok other hs).bounds pt inside).1
        rcases mem_cons.mp hs with rfl | hs
        · exact le_rfl
        · exact least other hs
      exact ((timestamp_le_of_mem_take increasing hw found).trans_lt late).trans_le above
    · rw [here.decodes, flatMap_cons, filter_append, foldl_append]
      exact ih later sorted' (foldl_retain_increasing increasing)

/-! ### The three ways -/

section

variable (h : Holds settings offered accepted st) (known : (series, head) ∈ st.series)
  (one : query.series = some series)
  (ident : metricIdentityMatches settings query head.identity = true)
include h known one ident

theorem Holds.mem_filter_seriesPoints :
    pt ∈ (seriesPoints settings st (series, head)).filter (metricExactSeriesPointMatches query) ↔
      Wanted settings query st pt := by
  rw [mem_filter, h.mem_seriesPoints known]
  constructor
  · rintro ⟨⟨stored, rfl⟩, fields⟩
    obtain ⟨head', known', identity', -⟩ := h.head_of_stored stored
    obtain rfl := eq_of_mem h.nodup known known'
    refine ⟨stored, fun series mem => ?_, identity' ▸ ident, fields⟩
    exact Option.some.inj (one.symm.trans mem)
  · intro ⟨stored, same, _, fields⟩
    exact ⟨⟨stored, same series one⟩, fields⟩

theorem Holds.mem_exactPoints :
    pt ∈ exactPoints settings query st head series ↔ Wanted settings query st pt := by
  rw [← h.mem_filter_seriesPoints known one ident]
  exact (perm_append_comm.filter _).mem_iff

theorem Holds.queryExactSeriesByOffset
    (offs : (query.partition.isSome || query.startOffset.isSome) = true) (orders : Orders I A E) :
    Served settings accepted query
      (st.queryExactSeriesByOffset settings orders query head (max query.limit 1) series) := by
  have got : (st.chunksOf series).foldlM (fun winners chunk => do
      let dec ← decodeChunk settings chunk
      pure ((dec.filter (metricExactSeriesPointMatches query)).foldl
        retainExactMetricWinner winners)) [] =
      .ok ((((st.chunksOf series).flatMap (chunkPoints settings)).filter
        (metricExactSeriesPointMatches query)).foldl retainExactMetricWinner []) := by
    rw [foldlM_eq_ok (g := fun winners chunk => ((chunkPoints settings chunk).filter
      (metricExactSeriesPointMatches query)).foldl retainExactMetricWinner winners), filter_flatMap,
      foldl_flatMap]
    intro winners chunk mem
    rw [(h.chunkOk mem).decodes]
    rfl
  obtain ⟨increasing, sel⟩ := selected_exact_winners h one fun pt =>
    h.mem_exactPoints known one ident
  refine ⟨_, bind_ok got rfl, ?_⟩
  rw [← foldl_append, ← filter_append]
  refine answers_of_sorted orders.byOffset (fun left right => ?_)
    (increasing.imp fun lt eq => absurd (congrArg _ eq) lt.ne) sel
  rw [Reading.order, if_pos]
  simpa [Reading.served, one] using offs

variable (part : query.partition = none) (offset : query.startOffset = none)
include part offset

theorem Holds.queryDisjointExactSeries
    (disjoint : st.exactSeriesSourcesAreDisjoint head series = true) :
    Served settings accepted query
      (st.queryDisjointExactSeries settings query head (max query.limit 1) series) := by
  have ok : ∀ chunk ∈ st.chunksOf series, ChunkOk settings accepted st series chunk :=
    fun chunk mem => h.chunkOk mem
  have positive : ([] : List (DurableMetricPoint I A E)).length < max query.limit 1 :=
    Nat.lt_of_lt_of_le Nat.zero_lt_one (Nat.le_max_right _ _)
  have answered : st.queryDisjointExactSeries settings query head (max query.limit 1) series =
      .ok ((exactPoints settings query st head series).take (max query.limit 1)) := by
    unfold MetricStripe.queryDisjointExactSeries
    split
    · next unbounded =>
      rw [takeChunks_eq ok positive, exactPoints, filter_unbounded unbounded, nil_append]
    · rw [pushChunks_eq ok positive, exactPoints, nil_append]
  have increasing :
      (exactPoints settings query st head series).Pairwise (·.timestamp < ·.timestamp) := by
    obtain ⟨chunks, last⟩ := Bool.and_eq_true_iff.mp disjoint
    have head_ok := h.heads _ known
    refine (increasing_of_disjoint ok chunks ?_ head_ok.increasing).sublist filter_sublist
    intro chunk mem pt inside
    have first := (head_ok.bounds inside).1
    unfold ExactMetricSource.minTimestampUnixNanos at first
    cases split : head.points with
    | nil => exact absurd (split ▸ inside) not_mem_nil
    | cons earliest rest =>
      simp only [split, head?_cons, Option.all_eq_true, decide_eq_true_eq] at last first
      exact (last chunk mem).trans_le first
  refine ⟨_, answered, answers_of_increasing part offset increasing fun pt => ?_⟩
  rw [← isNewest_of_increasing (·.offset) increasing]
  exact isNewest_timestamp_iff_selected h one fun pt => h.mem_exactPoints known one ident

theorem Holds.queryOverlappingExactSeries (orders) : Served settings accepted query
    (st.queryOverlappingExactSeries settings orders query head (max query.limit 1) series) := by
  let sources := orders.bySource.sort (st.exactSources head series)
  have perm : sources.Perm (st.exactSources head series) := orders.bySource.perm _
  have wanted : ∀ pt, pt ∈ (sources.flatMap (pointsIn settings)).filter
      (metricExactSeriesPointMatches query) ↔ Wanted settings query st pt := by
    intro pt
    rw [← h.mem_filter_seriesPoints known one ident, mem_filter, mem_filter]
    refine and_congr_left fun _ => ?_
    rw [(perm.flatMap_right _).mem_iff, exactSources, flatMap_append, flatMap_map,
      seriesPoints, mem_append, mem_append]
    refine or_congr_left ?_
    split
    · next empty => simp [List.isEmpty_iff.mp empty]
    · simp [pointsIn]
  obtain ⟨winners, looped, same⟩ := overlapping_take query (max query.limit 1)
    (fun source mem => h.sourceOk known (perm.mem_iff.mp mem)) (orders.bySource.sorted _) .nil
  obtain ⟨increasing, sel⟩ := selected_exact_winners h one wanted
  refine ⟨_, bind_ok (a := winners) looped rfl, ?_⟩
  have all : winners.filter (metricQueryCursorMatches query) = winners :=
    filter_eq_self.mpr fun pt _ => by simp [metricQueryCursorMatches, offset]
  rw [if_neg (by simp [part]), all, same]
  exact answers_of_increasing part offset increasing sel

end

/-- A query for one series answers, whichever way it takes. -/
theorem Holds.queryExactSeries (h : Holds settings offered accepted st)
    (one : query.series = some series) (orders) :
    Served settings accepted query
      (st.queryExactSeries settings orders query (max query.limit 1) series) := by
  -- nothing is selected if the series is not known or does not match
  have nothing : (∀ pt, ¬ Selected settings accepted query pt) →
      Answers settings accepted query .served [] := fun none =>
    ⟨[], .nil, fun pt => iff_of_false not_mem_nil fun h => none pt h.1, .nil, take_nil.symm⟩
  have owner : ∀ pt, Selected settings accepted query pt → ∃ head, st.head? series = some head ∧
      pt.identity = head.identity := by
    intro pt sel
    obtain ⟨head, known, ident, -⟩ := h.head_of_stored (h.newest pt sel.newest)
    rw [sel.series series one] at known
    exact ⟨head, head?_of_mem h.nodup known, ident⟩
  unfold MetricStripe.queryExactSeries
  cases found : st.head? series with
  | none =>
    refine ⟨[], rfl, nothing fun pt sel => ?_⟩
    obtain ⟨head, known, -⟩ := owner pt sel
    exact absurd (found.symm.trans known) (by simp)
  | some head =>
    have known := mem_of_head? found
    dsimp only
    split
    · next mismatch =>
      refine ⟨[], rfl, nothing fun pt sel => ?_⟩
      obtain ⟨head', known', ident⟩ := owner pt sel
      cases found.symm.trans known'
      rw [← ident, sel.identity] at mismatch
      exact absurd mismatch (by simp)
    next fits =>
    have ident : metricIdentityMatches settings query head.identity = true := by simpa using fits
    split
    · next offs => exact h.queryExactSeriesByOffset known one ident offs orders
    next plain =>
    simp only [Bool.or_eq_true, not_or, Bool.not_eq_true, Option.isSome_eq_false_iff,
      Option.isNone_iff_eq_none] at plain
    split
    · next disjoint => exact h.queryDisjointExactSeries known one ident plain.1 plain.2 disjoint
    · exact h.queryOverlappingExactSeries known one ident plain.1 plain.2 orders

end OneSeries

/-! ## All queries -/

section Main

variable [DecidableEq A] [DecidableEq E]

theorem Holds.query_answers (h : Holds settings offered accepted st)
    (storable : Storable settings offered)
    (orders) (query) : Served settings accepted query (st.query settings orders query) := by
  unfold MetricStripe.query
  cases which : query.series with
  | some series => exact h.queryExactSeries which orders
  | none => exact h.querySeries storable orders which

/-- After any history, every query answers with what was accepted. -/
theorem run_query_answers [DecidableEq I] (settings : Settings I A E)
    (orders : Orders I A E) (ops : List (MetricOp I A E))
    (storable : Storable settings (offeredBy ops)) (query : MetricQuery) :
    ∃ res, (run settings ops).1.query settings orders query = .ok res ∧
      Answers settings (run settings ops).2 query .served res :=
  (Steady.run ops storable).toHolds.query_answers storable orders query

end Main

/-! ## A sample history -/

/-- The sidecars of one point. -/
def loneSidecars : MetricChunkSidecars Unit Unit Unit :=
  ⟨(), ["requests"], [()], [()], [⟨0, 0, 0, 0, 0⟩]⟩

def loneBackend : Backend Unit Unit Unit :=
  { sampleBackend with
    sidecars := ⟨fun sidecars => if sidecars = loneSidecars then .ok [1] else .error "unsupported",
      fun _ => some loneSidecars, by
        intro sidecars bytes h
        split at h
        · next eq => rw [eq]
        · cases h⟩ }

/-- Every point is sealed as it comes. -/
def loneSettings : Settings Unit Unit Unit where
  backend := loneBackend
  headBudgetBytes := 100
  outOfOrderNanos := 0
  chunkBytes := 100
  chunkPoints := 1
  chunkNanos := 100
  estimatedHeadBytes _ := 1
  tenant _ := "tenant"
  name _ := "requests"
  resourceAttributes _ := []
  pointAttributes _ := []
  order := id
  order_perm _ := .refl _

/-- A point, and another one of the same time that replaces it. -/
def loneOps : List (MetricOp Unit Unit Unit) :=
  [.apply (samplePoint 0 20 0x3ff0000000000000) .otlp,
    .apply (samplePoint 1 20 0x4000000000000000) .otlp]

theorem lone_fits : ∀ pt ∈ offeredBy loneOps, Fits loneBackend [pt] := by
  intro pt mem
  simp only [offeredBy, loneOps, mem_cons, not_mem_nil, or_false] at mem
  rcases mem with rfl | rfl
  all_goals
    refine ⟨by decide, ⟨_, rfl, by decide⟩, ⟨_, rfl, by decide⟩, ?_, ?_, ?_⟩
    · rintro lane ⟨⟩
      decide
    · rintro first ⟨⟩ sides ⟨⟩
      exact ⟨[1], [1], rfl, rfl, by decide, by decide⟩
    · constructor <;> rintro _ _ ⟨⟩

theorem lone_storable : Storable loneSettings (offeredBy loneOps) where
  collisionFree _ _ _ _ _ := rfl
  owner left hl right hr _ := by
    simp only [offeredBy, loneOps, mem_cons, not_mem_nil, or_false] at hl hr
    rcases hl with rfl | rfl <;> rcases hr with rfl | rfl <;> rfl
  fits points within nonempty short _ _ := by
    obtain ⟨pt, rfl⟩ : ∃ pt, points = [pt] :=
      length_eq_one_iff.mp (le_antisymm short (length_pos_iff.mpr nonempty))
    exact lone_fits pt (within mem_cons_self)

/-- All points of the tenant from an offset on. -/
def loneQuery (startOffset : Option Nat) : MetricQuery :=
  ⟨"tenant", none, startOffset, none, none, [], none, none, 10⟩

theorem lone_query_answers : ∃ res,
    (run loneSettings loneOps).1.query loneSettings .insertion (loneQuery none) = .ok res ∧
      Answers loneSettings (run loneSettings loneOps).2 (loneQuery none) .served res :=
  run_query_answers loneSettings .insertion loneOps lone_storable (loneQuery none)

theorem accepted_loneOps : (run loneSettings loneOps).2 =
    [samplePoint 0 20 0x3ff0000000000000, samplePoint 1 20 0x4000000000000000] := by
  decide +kernel

/-- An offset to start from leaves points out without a partition. -/
theorem cursor_without_partition :
    ¬ ∀ (settings : Settings Unit Unit Unit) (orders : Orders Unit Unit Unit)
    (ops : List (MetricOp Unit Unit Unit)), Storable settings (offeredBy ops) →
      ∀ query : MetricQuery,
    ∃ res, (run settings ops).1.query settings orders query = .ok res ∧
      Answers settings (run settings ops).2 query .partitioned res := by
  intro all
  obtain ⟨res, answered, points, -, sel, -, rfl⟩ :=
    all loneSettings .insertion loneOps lone_storable (loneQuery (some 5))
  have nothing : (run loneSettings loneOps).1.query loneSettings .insertion (loneQuery (some 5)) =
      .ok [] := by
    decide +kernel
  have newest : samplePoint 1 20 0x4000000000000000 ∈ points := by
    refine (sel _).mpr ⟨⟨⟨?_, ?_⟩, by simp [loneQuery], rfl, rfl⟩, nofun⟩
    · rw [accepted_loneOps]
      simp
    · rw [accepted_loneOps]
      intro other mem _
      simp only [mem_cons, not_mem_nil, or_false] at mem
      rcases mem with rfl | rfl
      · decide
      · exact le_rfl
  have empty : points = [] :=
    (take_eq_nil_iff.mp (Except.ok.inj (answered.symm.trans nothing))).resolve_left (by decide)
  rw [empty] at newest
  cases newest

end ShardTelemetry.Metric
