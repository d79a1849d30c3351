import ShardTelemetry.Metric.Limits
import ShardTelemetry.Metric.Stripe

/-!
# What a metric stripe holds

A stripe does not keep every point that it accepted: a point in a head gives way to a later one of
its time.  It keeps the newest of each series and time, in a head or in a chunk (`Holds.newest`),
and whatever it keeps was accepted.  This is an invariant of all histories in which the points of a
series have one owner and can be stored in chunks (`Storable`).
-/

namespace ShardTelemetry.Metric

open List MetricStripe Newest

variable {I A E : Type}

/-! ## Maps -/

section Maps

variable {st : MetricStripe I A E} {series : BitVec 128} {head : SeriesHead I A E}

namespace MetricStripe

theorem mem_of_head? (h : st.head? series = some head) : (series, head) ∈ st.series := by
  obtain ⟨entry, found, rfl⟩ := Option.map_eq_some_iff.mp h
  have key : entry.1 = series := by simpa using find?_some found
  exact key ▸ mem_of_find?_eq_some found

section

variable (nodup : (st.series.map (·.1)).Nodup) (mem : (series, head) ∈ st.series)
include nodup mem

theorem head?_of_mem : st.head? series = some head := by
  unfold head?
  generalize st.series = ents at nodup mem
  induction ents with
  | nil => cases mem
  | cons entry rest ih =>
    obtain ⟨fresh, nodup⟩ := nodup_cons.mp nodup
    rcases mem_cons.mp mem with rfl | mem
    · rw [find?_cons_of_pos (by simp)]
      rfl
    · have differs : entry.1 ≠ series := fun eq =>
        fresh (mem_map.mpr ⟨_, mem, eq.symm⟩)
      rw [find?_cons_of_neg (by simpa using differs)]
      exact ih nodup mem

/-- A series has one head. -/
theorem eq_of_mem (mem' : (series, head') ∈ st.series) : head = head' :=
  Option.some.inj ((head?_of_mem nodup mem).symm.trans (head?_of_mem nodup mem'))

end

theorem mem_setHead {entry : BitVec 128 × SeriesHead I A E} :
      entry ∈ (st.setHead series head).series ↔
      entry = (series, head) ∨ entry ∈ st.series ∧ entry.1 ≠ series := by
  simp [setHead]

theorem nodup_setHead (h : (st.series.map (·.1)).Nodup) :
    ((st.setHead series head).series.map (·.1)).Nodup := by
  rw [setHead, map_cons, nodup_cons]
  constructor
  · intro mem
    obtain ⟨entry, mem, eq⟩ := mem_map.mp mem
    exact absurd eq (by simpa using (mem_filter.mp mem).2)
  · exact h.sublist (filter_sublist.map _)

theorem mem_chunksOf : chunk ∈ st.chunksOf series ↔ (series, chunk) ∈ st.chunks := by
  rw [chunksOf, mem_map]
  constructor
  · rintro ⟨⟨key, chunk⟩, mem, rfl⟩
    obtain ⟨mem, eq⟩ := mem_filter.mp mem
    exact of_decide_eq_true eq ▸ mem
  · exact fun mem => ⟨_, mem_filter.mpr ⟨mem, by simp⟩, rfl⟩

end MetricStripe

end Maps

/-! ## Lists with increasing times -/

section Increasing

variable {points : List (DurableMetricPoint I A E)} {pt : DurableMetricPoint I A E}

/-- Points with increasing times are sorted already. -/
theorem sortUnstable_eq (h : points.Pairwise (·.timestamp < ·.timestamp))
    (be : Backend I A E) : be.sortUnstable points = points := by
  have sorted : points.Pairwise fun left right => left.sortKey ≤ right.sortKey :=
    h.imp fun lt => (Prod.Lex.lt_iff.mpr (.inl lt)).le
  refine Perm.eq_of_pairwise ?_ (be.sortUnstable_pairwise points) sorted
    (be.sortUnstable_perm points)
  intro left right hl hr le ge
  refine eq_of_increasing h ((be.sortUnstable_perm points).subset hl) hr ?_
  exact congrArg (fun key => (ofLex key).1) (le_antisymm le ge)

section

variable (h : points.Pairwise (·.timestamp < ·.timestamp))
  (fresh : ∀ other ∈ points, other.timestamp ≠ pt.timestamp)
include h fresh

/-- A point goes to its place among points of other times. -/
theorem insertPoint_eq :
    ∃ before after, points = before ++ after ∧ insertPoint points pt = before ++ pt :: after ∧
      (∀ other ∈ before, other.timestamp < pt.timestamp) ∧
      ∀ other ∈ after, pt.timestamp < other.timestamp := by
  induction points with
  | nil => exact ⟨[], [], rfl, rfl, by simp, by simp⟩
  | cons first rest ih =>
    obtain ⟨before, later⟩ := pairwise_cons.mp h
    rcases Nat.lt_or_gt_of_ne (fresh first mem_cons_self) with lt | gt
    · obtain ⟨front, back, rfl, inserted, lower, upper⟩ := ih later (forall_mem_cons.mp fresh).2
      have less : first.sortKey < pt.sortKey := Prod.Lex.lt_iff.mpr (.inl lt)
      refine ⟨first :: front, back, rfl, ?_, forall_mem_cons.mpr ⟨lt, lower⟩, upper⟩
      rw [insertPoint, takeWhile_cons_of_pos (by simpa using less),
        dropWhile_cons_of_pos (by simpa using less), cons_append]
      exact congrArg (first :: ·) inserted
    · have more : pt.sortKey < first.sortKey := Prod.Lex.lt_iff.mpr (.inl gt)
      refine ⟨[], first :: rest, rfl, ?_, by simp,
        forall_mem_cons.mpr ⟨gt, fun other mem => gt.trans (before other mem)⟩⟩
      rw [insertPoint, takeWhile_cons_of_neg (by simpa using more.le),
        dropWhile_cons_of_neg (by simpa using more.le),
          dropWhile_cons_of_neg (by simpa using more.ne')]

theorem insertPoint_increasing : (insertPoint points pt).Pairwise (·.timestamp < ·.timestamp) := by
  obtain ⟨before, after, rfl, inserted, lower, upper⟩ := insertPoint_eq h fresh
  rw [inserted]
  obtain ⟨front, back, -⟩ := pairwise_append.mp h
  exact pairwise_append.mpr ⟨front, pairwise_cons.mpr ⟨upper, back⟩, fun left hl =>
    forall_mem_cons.mpr ⟨lower left hl, fun right hr => (lower left hl).trans (upper right hr)⟩⟩

theorem mem_insertPoint : left ∈ insertPoint points pt ↔ left = pt ∨ left ∈ points := by
  obtain ⟨before, after, rfl, inserted, -, -⟩ := insertPoint_eq h fresh
  rw [inserted]
  simp only [mem_append, mem_cons]
  tauto

end

/-- An insertion adds one point at most. -/
theorem length_insertPoint_le (points : List (DurableMetricPoint I A E))
    (pt : DurableMetricPoint I A E) : (insertPoint points pt).length ≤ points.length + 1 := by
  have split :=
    congrArg length (takeWhile_append_dropWhile (p := (·.sortKey < pt.sortKey)) (l := points))
  have fewer := (dropWhile_sublist (l := points.dropWhile (·.sortKey < pt.sortKey))
    (·.sortKey = pt.sortKey)).length_le
  rw [length_append] at split
  rw [insertPoint, length_append, length_cons]
  omega

end Increasing

/-! ## The invariant -/

variable [DecidableEq I] [DecidableEq A] [DecidableEq E]

section Spec

variable (settings : Settings I A E)

/-- The series of a point. -/
def seriesOf (point : DurableMetricPoint I A E) : BitVec 128 :=
  settings.backend.fingerprint point.identity

/-- The series and the time of a point. -/
def pointKey (point : DurableMetricPoint I A E) : Nat ×ₗ Nat :=
  toLex ((seriesOf settings point).toNat, point.timestamp)

/-- What a chunk decodes to. -/
def chunkPoints (chunk : SealedMetricChunk) : List (DurableMetricPoint I A E) :=
  match decodeChunk settings chunk with
  | .ok points => points
  | .error _ => []

/-- A point is in the stripe. -/
def Stored (stripe : MetricStripe I A E) (point : DurableMetricPoint I A E) : Prop :=
  (∃ entry ∈ stripe.series, point ∈ entry.2.points) ∨
    ∃ entry ∈ stripe.chunks, point ∈ chunkPoints settings entry.2

/-- The most points that a head gets before it is sealed. -/
def headLimit : Nat := max settings.chunkPoints 1

/-- The points of one series have one owner, so many of them as a head gets fit in a chunk, and
series do not collide. -/
structure Storable (offered : List (DurableMetricPoint I A E)) : Prop where
  collisionFree : ∀ left ∈ offered, ∀ right ∈ offered,
    seriesOf settings left = seriesOf settings right → left.identity = right.identity
  owner : ∀ left ∈ offered, ∀ right ∈ offered,
    left.identity = right.identity → left.streamShardId = right.streamShardId
  fits : ∀ points ⊆ offered, points ≠ [] → points.length ≤ headLimit settings →
    points.Pairwise (·.timestamp < ·.timestamp) →
      (∀ left ∈ points, ∀ right ∈ points, left.identity = right.identity) →
      Fits settings.backend points

/-- The points of a head are accepted points of its series, with increasing times. -/
structure HeadOk (accepted : List (DurableMetricPoint I A E)) (series : BitVec 128)
    (head : SeriesHead I A E) : Prop where
  series : settings.backend.fingerprint head.identity = series
  count : head.points.length ≤ headLimit settings
  increasing : head.points.Pairwise (·.timestamp < ·.timestamp)
  accepted : ∀ point ∈ head.points, point ∈ accepted
  identity : ∀ point ∈ head.points, point.identity = head.identity
  partition : ∀ point ∈ head.points, point.recordRef.topicPartition = head.topicPartition
  signal : ∀ point ∈ head.points, point.recordRef.signal = .metrics

/-- A chunk holds accepted points of its series, with increasing times within its bounds. -/
structure ChunkOk (accepted : List (DurableMetricPoint I A E))
    (stripe : MetricStripe I A E) (series : BitVec 128) (chunk : SealedMetricChunk) :
    Prop where
  decodes : decodeChunk settings chunk = .ok (chunkPoints settings chunk)
  nonempty : chunkPoints settings chunk ≠ []
  increasing : (chunkPoints settings chunk).Pairwise (·.timestamp < ·.timestamp)
  accepted : ∀ point ∈ chunkPoints settings chunk, point ∈ accepted
  bounds : ∀ point ∈ chunkPoints settings chunk,
    chunk.minTimestampUnixNanos ≤ point.timestamp ∧ point.timestamp ≤ chunk.maxTimestampUnixNanos
  head : ∃ head, (series, head) ∈ stripe.series ∧ ∀ point ∈ chunkPoints settings chunk,
    point.identity = head.identity ∧ point.recordRef.topicPartition = head.topicPartition

structure Holds (offered accepted : List (DurableMetricPoint I A E))
    (stripe : MetricStripe I A E) : Prop where
  within : accepted ⊆ offered
  nodup : (stripe.series.map (·.1)).Nodup
  known : ∀ entry ∈ stripe.series, ∃ point ∈ offered, point.identity = entry.2.identity
  heads : ∀ entry ∈ stripe.series, HeadOk settings accepted entry.1 entry.2
  chunks : ∀ entry ∈ stripe.chunks, ChunkOk settings accepted stripe entry.1 entry.2
  newest : ∀ point, IsNewest (pointKey settings) (·.offset) accepted point →
    Stored settings stripe point
  determined : Determined (pointKey settings) (·.offset) accepted
  names : ∀ entry ∈ stripe.series, (settings.name entry.2.identity, entry.1) ∈ stripe.nameIndex
  labels : ∀ entry ∈ stripe.series, ∀ label ∈ prometheusStringLabels settings entry.2.identity,
    (label, entry.1) ∈ stripe.labelIndex
  named : ∀ entry ∈ stripe.nameIndex, ∃ point ∈ offered,
    seriesOf settings point = entry.2 ∧ settings.name point.identity = entry.1
  labelled : ∀ entry ∈ stripe.labelIndex, ∃ point ∈ offered,
    seriesOf settings point = entry.2 ∧ entry.1 ∈ prometheusStringLabels settings point.identity

end Spec

variable {settings : Settings I A E} {offered accepted : List (DurableMetricPoint I A E)}
  {st : MetricStripe I A E} {series : BitVec 128} {head : SeriesHead I A E}
  {pt : DurableMetricPoint I A E}

section

omit [DecidableEq I] [DecidableEq A] [DecidableEq E]

theorem HeadOk.seriesOf_eq (ok : HeadOk settings accepted series head) (mem : pt ∈ head.points) :
    seriesOf settings pt = series := by
  rw [seriesOf, ok.identity pt mem, ok.series]

theorem Holds.seriesOf_eq (h : Holds settings offered accepted st)
    (mem : (series, chunk) ∈ st.chunks)
    (inside : pt ∈ chunkPoints settings chunk) : seriesOf settings pt = series := by
  obtain ⟨head, known, points⟩ := (h.chunks _ mem).head
  rw [seriesOf, (points pt inside).1, (h.heads _ known).series]

theorem HeadOk.mono (h : HeadOk settings accepted series head) (subset : accepted ⊆ acc') :
    HeadOk settings acc' series head :=
  { h with accepted := fun pt mem => subset (h.accepted pt mem) }

theorem ChunkOk.mono (h : ChunkOk settings accepted st series chunk) (subset : accepted ⊆ acc')
    (kept : ∀ head, (series, head) ∈ st.series → ∃ head', (series, head') ∈ st'.series ∧
      head'.identity = head.identity ∧ head'.topicPartition = head.topicPartition) :
    ChunkOk settings acc' st' series chunk := by
  obtain ⟨head, mem, points⟩ := h.head
  obtain ⟨head', mem', ident, part⟩ := kept head mem
  refine { h with accepted := fun pt mem => subset (h.accepted pt mem), head := ⟨head', mem', ?_⟩ }
  intro pt mem
  rw [ident, part]
  exact points pt mem

/-- One series gets another head, and perhaps one more chunk. -/
theorem Holds.update (h : Holds settings offered accepted st) (head) (more)
    (subset : accepted ⊆ acc') (within : acc' ⊆ offered)
    (heads : st'.series = (st.setHead series head).series) (chunks : st'.chunks = st.chunks ++ more)
    (nameIndex : st'.nameIndex = st.nameIndex) (labelIndex : st'.labelIndex = st.labelIndex)
    (ok : HeadOk settings acc' series head) (known : ∃ pt ∈ offered, pt.identity = head.identity)
    (agrees : ∀ old, (series, old) ∈ st.series →
      head.identity = old.identity ∧ head.topicPartition = old.topicPartition)
    (added : ∀ entry ∈ more, ChunkOk settings acc' st' entry.1 entry.2)
    (newest : ∀ pt, IsNewest (pointKey settings) (·.offset) acc' pt → Stored settings st' pt)
    (determined : Determined (pointKey settings) (·.offset) acc')
    (name : (settings.name head.identity, series) ∈ st.nameIndex)
    (labels : ∀ label ∈ prometheusStringLabels settings head.identity,
      (label, series) ∈ st.labelIndex) :
    Holds settings offered acc' st' where
  within := within
  nodup := heads ▸ nodup_setHead h.nodup
  known entry mem := by
    rcases mem_setHead.mp (heads ▸ mem) with rfl | ⟨mem, -⟩
    · exact known
    · exact h.known entry mem
  heads entry mem := by
    rcases mem_setHead.mp (heads ▸ mem) with rfl | ⟨mem, -⟩
    · exact ok
    · exact (h.heads entry mem).mono subset
  chunks entry mem := by
    rw [chunks] at mem
    rcases mem_append.mp mem with mem | mem
    · refine (h.chunks entry mem).mono subset fun old here => ?_
      by_cases same : entry.1 = series
      · obtain ⟨ident, part⟩ := agrees old (same ▸ here)
        exact ⟨head, heads ▸ mem_setHead.mpr (.inl (Prod.ext same rfl)), ident, part⟩
      · exact ⟨old, heads ▸ mem_setHead.mpr (.inr ⟨here, same⟩), rfl, rfl⟩
    · exact added entry mem
  newest := newest
  determined := determined
  names entry mem := by
    rw [nameIndex]
    rcases mem_setHead.mp (heads ▸ mem) with rfl | ⟨mem, -⟩
    · exact name
    · exact h.names entry mem
  labels entry mem := by
    rw [labelIndex]
    rcases mem_setHead.mp (heads ▸ mem) with rfl | ⟨mem, -⟩
    · exact labels
    · exact h.labels entry mem
  named entry mem := h.named entry (nameIndex ▸ mem)
  labelled entry mem := h.labelled entry (labelIndex ▸ mem)

end

/-! ## Sealing -/

/-- A head without points stays as it is, any other is emptied. -/
theorem sealSeries_cases (st : MetricStripe I A E) (series : BitVec 128) :
    ((st.sealSeries settings series).2 = st ∧ ∀ head ∈ st.head? series, head.points = []) ∨
      ∃ head more, st.head? series = some head ∧
        (st.sealSeries settings series).2 =
        { st.setHead series { head with points := [], bytes := 0 } with
          headBytes := st.headBytes - head.bytes, chunks := st.chunks ++ more } := by
  unfold sealSeries
  cases found : st.head? series with
  | none => exact .inl ⟨rfl, nofun⟩
  | some head =>
    dsimp only
    split
    · next empty =>
      refine .inl ⟨rfl, ?_⟩
      rintro _ ⟨⟩
      exact List.isEmpty_iff.mp empty
    split
    · exact .inr ⟨head, [], rfl, by rw [append_nil]; rfl⟩
    split
    · exact .inr ⟨head, _, rfl, rfl⟩
    · exact .inr ⟨head, [], rfl, by rw [append_nil]; rfl⟩

section Invariant

variable {P : MetricStripe I A E → Prop}
  (sealed : ∀ st series, P st → P (st.sealSeries settings series).2)
include sealed

/-- What sealing a series keeps is kept by sealing several. -/
theorem sealEach_invariant (each) (h : P st) : P (sealEach settings each st).2 := by
  induction each generalizing st with
  | nil => exact h
  | cons series rest ih =>
    have next := sealed st series h
    unfold sealEach
    split
    · next eq => exact congrArg Prod.snd eq ▸ next
    · next eq =>
      rw [eq] at next
      exact ih next

theorem reserve_invariant (bytes : Nat) (h : P st) : P (st.reserve settings bytes).2 := by
  unfold reserve sealLargestHead
  split
  · split
    · exact h
    · exact sealed st _ h
  · exact h

end Invariant

/-- The points of a head can be stored in a chunk, and come back as they are. -/
theorem HeadOk.chunk (h : HeadOk settings accepted series head) (within : accepted ⊆ offered)
    (storable : Storable settings offered) (nonempty : head.points ≠ []) :
    ∃ load, encodeMetricChunk settings.backend head.points = .ok load ∧
      decodeMetricChunk settings.backend load = .ok head.points ∧ head.points.length < 2 ^ 32 := by
  have one : ∀ left ∈ head.points, ∀ right ∈ head.points, left.identity = right.identity :=
    fun left hl right hr => (h.identity left hl).trans (h.identity right hr).symm
  have inside : head.points ⊆ offered := fun pt mem => within (h.accepted pt mem)
  have fits := storable.fits head.points inside nonempty h.count h.increasing one
  have same := sortUnstable_eq h.increasing settings.backend
  obtain ⟨first, rest, eq⟩ := exists_cons_of_ne_nil nonempty
  have agree : (first :: rest).all first.agrees = true := by
    rw [all_eq_true, ← eq]
    intro pt mem
    have mem₀ : first ∈ head.points := eq ▸ .head _
    have part := (h.partition pt mem).trans (h.partition first mem₀).symm
    simp only [DurableMetricPoint.agrees, Bool.and_eq_true, decide_eq_true_eq]
    exact ⟨⟨⟨⟨h.signal pt mem, congrArg Prod.fst part⟩, congrArg Prod.snd part⟩,
      storable.owner pt (inside mem) first (inside mem₀) (one pt mem first mem₀)⟩,
      one pt mem first mem₀⟩
  obtain ⟨load, enc, dec⟩ := stored_of_fits agree (eq ▸ fits)
  rw [← eq, same] at dec
  exact ⟨load, eq ▸ enc, dec, fits.count⟩

omit [DecidableEq I] [DecidableEq A] [DecidableEq E] in
theorem bounds_of_mem {points : List (DurableMetricPoint I A E)} (mem : pt ∈ points) :
    ((points.map (·.timestamp)).min?).getD 0 ≤ pt.timestamp ∧
      pt.timestamp ≤ ((points.map (·.timestamp)).max?).getD 0 := by
  have inside : pt.timestamp ∈ points.map (·.timestamp) := mem_map.mpr ⟨pt, mem, rfl⟩
  constructor
  · cases least : (points.map (·.timestamp)).min? with
    | none => exact absurd (min?_eq_none_iff.mp least ▸ inside) not_mem_nil
    | some value => exact (min?_eq_some_iff.mp least).2 _ inside
  · cases most : (points.map (·.timestamp)).max? with
    | none => exact absurd (max?_eq_none_iff.mp most ▸ inside) not_mem_nil
    | some value => exact (max?_eq_some_iff.mp most).2 _ inside

section

variable (h : Holds settings offered accepted st) (storable : Storable settings offered)
include h storable

/-- Sealing moves the points of a head into a chunk. -/
theorem Holds.sealSeries (series) : (st.sealSeries settings series).1 = .ok () ∧
      Holds settings offered accepted (st.sealSeries settings series).2 := by
  unfold MetricStripe.sealSeries
  cases found : st.head? series with
  | none => exact ⟨rfl, h⟩
  | some head =>
    have mem := mem_of_head? found
    have ok := h.heads _ mem
    by_cases empty : head.points = []
    · simp only [empty, isEmpty_nil, if_true]
      exact ⟨trivial, h⟩
    · obtain ⟨load, enc, dec, short⟩ := ok.chunk h.within storable empty
      have nonempty : head.points.isEmpty = false := by simpa using empty
      simp only [nonempty, Bool.false_eq_true, if_false, enc, if_pos short]
      refine ⟨trivial, ?_⟩
      have points : ∀ low high, chunkPoints settings ⟨low, high, load⟩ = head.points := by
        intro low high
        simp only [chunkPoints, decodeChunk, dec]
      refine h.update { head with points := [], bytes := 0 } [(series, ⟨_, _, load⟩)]
        (List.Subset.refl _) h.within rfl rfl rfl rfl ?_ (h.known _ mem) ?_ ?_ ?_ h.determined
        (h.names _ mem) (h.labels _ mem)
      · exact ⟨ok.series, Nat.zero_le _, .nil, by simp, by simp, by simp, by simp⟩
      · intro old here
        cases (head?_of_mem h.nodup here).symm.trans found
        exact ⟨rfl, rfl⟩
      · intro entry mem
        obtain rfl := mem_singleton.mp mem
        refine ⟨?_, ?_, ?_, ?_, ?_, ⟨_, mem_setHead.mpr (.inl rfl), ?_⟩⟩ <;> rw [points]
        · exact dec
        · exact empty
        · exact ok.increasing
        · exact ok.accepted
        · exact fun pt mem => bounds_of_mem mem
        · exact fun pt mem => ⟨ok.identity pt mem, ok.partition pt mem⟩
      · intro pt newest
        rcases h.newest pt newest with ⟨⟨key, old⟩, here, inside⟩ | ⟨entry, here, inside⟩
        · by_cases same : key = series
          · -- it is in the head that is sealed
            subst same
            cases (head?_of_mem h.nodup here).symm.trans found
            refine .inr ⟨_, mem_append_right _ mem_cons_self, ?_⟩
            rw [points]
            exact inside
          · exact .inl ⟨_, mem_setHead.mpr (.inr ⟨here, same⟩), inside⟩
        · exact .inr ⟨entry, mem_append_left _ here, inside⟩

end

/-! ## Room -/

/-- Every head can take one more point. -/
def Room (settings : Settings I A E) (stripe : MetricStripe I A E) : Prop :=
  ∀ entry ∈ stripe.series, entry.2.points.length < headLimit settings

section

omit [DecidableEq I] [DecidableEq A] [DecidableEq E]

theorem headLimit_pos (settings : Settings I A E) : 0 < headLimit settings :=
  Nat.lt_of_lt_of_le Nat.zero_lt_one (Nat.le_max_right _ _)

theorem Room.setHead
    (others : ∀ entry ∈ st.series, entry.1 ≠ series → entry.2.points.length < headLimit settings)
    (room : head.points.length < headLimit settings) : Room settings (st.setHead series head) := by
  intro entry mem
  rcases mem_setHead.mp mem with rfl | ⟨mem, apart⟩
  · exact room
  · exact others entry mem apart

end

/-- Sealing a series makes room in its head. -/
theorem room_sealSeries (series : BitVec 128) (nodup : (st.series.map (·.1)).Nodup)
    (others : ∀ entry ∈ st.series, entry.1 ≠ series → entry.2.points.length < headLimit settings) :
    Room settings (st.sealSeries settings series).2 := by
  rcases sealSeries_cases st series with ⟨eq, empty⟩ | ⟨head, more, found, eq⟩ <;> rw [eq]
  · intro entry mem
    by_cases same : entry.1 = series
    · rw [empty _ (head?_of_mem nodup (same ▸ mem : (series, entry.2) ∈ st.series))]
      exact headLimit_pos settings
    · exact others entry mem same
  · exact Room.setHead others (headLimit_pos settings)

omit [DecidableEq I] [DecidableEq A] [DecidableEq E] in
theorem Room.headFor (room : Room settings st) (pt : DurableMetricPoint I A E) :
    (st.headFor pt series).points.length < headLimit settings := by
  unfold MetricStripe.headFor
  cases found : st.head? series with
  | none => exact headLimit_pos settings
  | some head => exact room _ (mem_of_head? found)

/-! ## Applying a point -/

/-- A point can be applied: its series is indexed, and is that of the head if there is one. -/
structure Ready (settings : Settings I A E)
    (stripe : MetricStripe I A E)
    (point : DurableMetricPoint I A E) : Prop where
  signal : point.recordRef.signal = .metrics
  agrees : ∀ head, (seriesOf settings point, head) ∈ stripe.series →
    head.identity = point.identity ∧ head.topicPartition = point.recordRef.topicPartition
  name : (settings.name point.identity, seriesOf settings point) ∈ stripe.nameIndex
  labels : ∀ label ∈ prometheusStringLabels settings point.identity,
    (label, seriesOf settings point) ∈ stripe.labelIndex

/-- Sealing keeps what the heads and the indexes say. -/
theorem Ready.sealSeries (h : Ready settings st pt) (series : BitVec 128) :
    Ready settings (st.sealSeries settings series).2 pt := by
  rcases sealSeries_cases st series with ⟨eq, -⟩ | ⟨head, more, found, eq⟩ <;> rw [eq]
  · exact h
  · refine ⟨h.signal, fun other mem => ?_, h.name, h.labels⟩
    rcases mem_setHead.mp mem with eq | ⟨mem, -⟩
    · obtain ⟨rfl, rfl⟩ := Prod.mk.inj eq
      exact h.agrees head (mem_of_head? found)
    · exact h.agrees other mem

section

omit [DecidableEq I] [DecidableEq A] [DecidableEq E]

/-- The head of a point that is ready. -/
theorem Ready.headOk (ready : Ready settings st pt) (h : Holds settings offered accepted st) :
    HeadOk settings accepted (seriesOf settings pt) (st.headFor pt (seriesOf settings pt)) ∧
      (st.headFor pt (seriesOf settings pt)).identity = pt.identity ∧
      (st.headFor pt (seriesOf settings pt)).topicPartition = pt.recordRef.topicPartition := by
  unfold headFor
  cases found : st.head? (seriesOf settings pt) with
  | none => exact ⟨⟨rfl, Nat.zero_le _, .nil, by simp, by simp, by simp, by simp⟩, rfl, rfl⟩
  | some head =>
    have mem := mem_of_head? found
    exact ⟨h.heads _ mem, ready.agrees head mem⟩

section

variable (h : Holds settings offered accepted st)
include h

/-- The head that a series has is the one that a point finds. -/
theorem headFor_of_mem (mem : (series, head) ∈ st.series) (pt) : st.headFor pt series = head := by
  rw [headFor, head?_of_mem h.nodup mem]
  rfl

/-- A head is made for a series that has none. -/
theorem Holds.setHeadFor (ready : Ready settings st pt) (offers : pt ∈ offered) :
    Holds settings offered accepted
      (st.setHead (seriesOf settings pt) (st.headFor pt (seriesOf settings pt))) := by
  obtain ⟨ok, ident, part⟩ := ready.headOk h
  refine h.update (st.headFor pt (seriesOf settings pt)) [] (List.Subset.refl _) h.within rfl
    (append_nil _).symm rfl rfl ok ⟨pt, offers, ident.symm⟩ ?_ (by simp) ?_ h.determined
    (ident ▸ ready.name) (ident ▸ ready.labels)
  · intro old here
    rw [headFor_of_mem h here]
    exact ⟨rfl, rfl⟩
  · intro other newest
    rcases h.newest other newest with ⟨⟨key, old⟩, here, inside⟩ | stored
    · by_cases same : key = seriesOf settings pt
      · subst same
        refine .inl ⟨_, mem_setHead.mpr (.inl rfl), ?_⟩
        rw [headFor_of_mem h here]
        exact inside
      · exact .inl ⟨_, mem_setHead.mpr (.inr ⟨here, same⟩), inside⟩
    · exact .inr stored

/-- The points of the series and the time of a point that are stored. -/
theorem mem_existing
    (found : st.sealedChunksAt settings (seriesOf settings pt) pt.timestamp = .ok dec)
    (stored : Stored settings st other) (same : pointKey settings other = pointKey settings pt) :
    other ∈ ((st.headFor pt (seriesOf settings pt)).points ++ dec.flatten).filter
      (·.timestamp = pt.timestamp) := by
  have key := Prod.mk.inj same
  have series : seriesOf settings other = seriesOf settings pt := BitVec.eq_of_toNat_eq key.1
  refine mem_filter.mpr ⟨mem_append.mpr ?_, decide_eq_true key.2⟩
  rcases stored with ⟨⟨key', head⟩, here, inside⟩ | ⟨⟨key', chunk⟩, here, inside⟩
  · obtain rfl := ((h.heads _ here).seriesOf_eq inside).symm.trans series
    rw [headFor_of_mem h here]
    exact .inl inside
  · have ok := h.chunks _ here
    obtain rfl := (h.seriesOf_eq here inside).symm.trans series
    have bounds := ok.bounds other inside
    rw [show other.timestamp = pt.timestamp from key.2] at bounds
    have sel : chunk ∈ (st.chunksOf (seriesOf settings pt)).filter fun chunk =>
        chunk.minTimestampUnixNanos ≤ pt.timestamp &&
          pt.timestamp ≤ chunk.maxTimestampUnixNanos := by
      refine mem_filter.mpr ⟨mem_chunksOf.mpr here, ?_⟩
      simpa using bounds
    obtain ⟨points', known', decodes⟩ := exists_of_mapM_eq_ok found sel
    rw [ok.decodes] at decodes
    cases decodes
    exact .inr (mem_flatten.mpr ⟨_, known', inside⟩)

end

end

/-- The head after a point was taken in. -/
def SeriesHead.insert (settings : Settings I A E) (head : SeriesHead I A E)
    (point : DurableMetricPoint I A E) : SeriesHead I A E :=
  { head.without point.timestamp with
    points := insertPoint (head.without point.timestamp).points point
    latestTimestamp := max head.latestTimestamp point.timestamp
    bytes := head.bytes -
      ((head.points.filter (·.timestamp = point.timestamp)).map settings.estimatedHeadBytes).sum +
        settings.estimatedHeadBytes point }

section

omit [DecidableEq I] [DecidableEq A] [DecidableEq E]

theorem SeriesHead.fresh_without (head : SeriesHead I A E) (timestamp : Nat) :
    ∀ other ∈ (head.without timestamp).points, other.timestamp ≠ timestamp :=
  fun _ mem => of_decide_eq_true (mem_filter.mp mem).2

theorem HeadOk.increasing_without (ok : HeadOk settings accepted series head) (timestamp : Nat) :
    (head.without timestamp).points.Pairwise (·.timestamp < ·.timestamp) :=
  ok.increasing.sublist filter_sublist

theorem HeadOk.mem_insert (ok : HeadOk settings accepted series head) :
    other ∈ (head.insert settings pt).points ↔
      other = pt ∨ other ∈ head.points ∧ other.timestamp ≠ pt.timestamp := by
  refine (mem_insertPoint (ok.increasing_without _) (head.fresh_without _)).trans ?_
  rw [SeriesHead.without, mem_filter, decide_eq_true_iff]

theorem HeadOk.insert (ok : HeadOk settings accepted (seriesOf settings pt) head)
    (room : head.points.length < headLimit settings) (signal : pt.recordRef.signal = .metrics)
    (ident : pt.identity = head.identity)
    (part : pt.recordRef.topicPartition = head.topicPartition) :
    HeadOk settings (accepted ++ [pt]) (seriesOf settings pt) (head.insert settings pt) := by
  have fewer : (head.without pt.timestamp).points.length ≤ head.points.length :=
    length_filter_le _ _
  have count := length_insertPoint_le (head.without pt.timestamp).points pt
  refine ⟨ok.series, count.trans (by omega),
    insertPoint_increasing (ok.increasing_without _) (head.fresh_without _), ?_, ?_, ?_, ?_⟩ <;>
    intro other mem <;> rcases ok.mem_insert.mp mem with rfl | ⟨mem, -⟩
  · simp
  · exact mem_append_left _ (ok.accepted other mem)
  · exact ident
  · exact ok.identity other mem
  · exact part
  · exact ok.partition other mem
  · exact signal
  · exact ok.signal other mem

section

variable (h : Holds settings offered accepted st)
  (above : ∀ other, Stored settings st other → pointKey settings other = pointKey settings pt →
    other.offset < pt.offset)
include h above

/-- A point above all stored points of its key is above all accepted ones. -/
theorem Holds.above_accepted (mem : other ∈ accepted)
    (same : pointKey settings other = pointKey settings pt) : other.offset < pt.offset := by
  obtain ⟨newest, found, key, le⟩ := exists_newest (pointKey settings) (·.offset) mem
  exact le.trans_lt (above newest (h.newest newest found) (key.trans same))

theorem Holds.determined_append : Determined (pointKey settings) (·.offset) (accepted ++ [pt]) := by
  intro left hl right hr key tie
  rcases mem_append.mp hl with old | new <;> rcases mem_append.mp hr with old' | new'
  · exact h.determined left old right old' key tie
  · obtain rfl := mem_singleton.mp new'
    exact absurd tie (h.above_accepted above old key).ne
  · obtain rfl := mem_singleton.mp new
    exact absurd tie (h.above_accepted above old' key.symm).ne'
  · rw [mem_singleton.mp new, mem_singleton.mp new']

end

end

/-- A point above the stored ones of its key is taken into its head. -/
theorem Holds.insertInto (h : Holds settings offered accepted st)
    (storable : Storable settings offered) (ready : Ready settings st pt) (offers : pt ∈ offered)
    (here : (seriesOf settings pt, head) ∈ st.series) (room : Room settings st)
    (above : ∀ other, Stored settings st other → pointKey settings other = pointKey settings pt →
      other.offset < pt.offset) (out) :
    (st.insertInto settings pt (seriesOf settings pt) head out).1 = .ok out ∧
      Holds settings offered (accepted ++ [pt])
        (st.insertInto settings pt (seriesOf settings pt) head out).2 := by
  obtain ⟨ident, part⟩ := ready.agrees head here
  have ok := h.heads _ here
  have inserted : ∀ bytes, Holds settings offered (accepted ++ [pt])
      { st.setHead (seriesOf settings pt) (head.insert settings pt) with headBytes := bytes } := by
    intro bytes
    refine h.update (head.insert settings pt) [] (subset_append_left _ _) ?_ rfl
      (append_nil _).symm rfl rfl (ok.insert (room _ here) ready.signal ident.symm part.symm)
      ⟨pt, offers, ident.symm⟩ ?_ (by simp) ?_ (h.determined_append above) (h.names _ here)
      (h.labels _ here)
    · intro other mem
      rcases mem_append.mp mem with mem | mem
      · exact h.within mem
      · exact mem_singleton.mp mem ▸ offers
    · intro old mem
      obtain rfl := eq_of_mem h.nodup here mem
      exact ⟨rfl, rfl⟩
    · intro other newest
      by_cases new : other = pt
      · exact .inl ⟨_, mem_setHead.mpr (.inl rfl), ok.mem_insert.mpr (.inl new)⟩
      · have old : IsNewest (pointKey settings) (·.offset) accepted other := by
          refine ⟨?_, fun x hx => newest.newest x (mem_append_left _ hx)⟩
          rcases mem_append.mp newest.mem with mem | mem
          · exact mem
          · exact absurd (mem_singleton.mp mem) new
        rcases h.newest other old with ⟨⟨key, known⟩, mem, inside⟩ | stored
        · by_cases same : key = seriesOf settings pt
          · subst same
            obtain rfl := eq_of_mem h.nodup here mem
            refine .inl ⟨_, mem_setHead.mpr (.inl rfl), ok.mem_insert.mpr (.inr ⟨inside, ?_⟩)⟩
            -- a point of the same time would have given way to the new one
            intro time
            have key : pointKey settings pt = pointKey settings other := by
              unfold pointKey
              rw [time, seriesOf, seriesOf, ok.identity other inside, ident]
            have lt := above other (.inl ⟨_, here, inside⟩) key.symm
            exact absurd (newest.newest pt (by simp) key) (Nat.not_le.mpr lt)
          · exact .inl ⟨_, mem_setHead.mpr (.inr ⟨mem, same⟩), inside⟩
        · exact .inr stored
  unfold MetricStripe.insertInto
  dsimp only
  split
  · obtain ⟨done, next⟩ := (inserted _).sealSeries storable (seriesOf settings pt)
    split
    · next eq => exact absurd ((congrArg Prod.fst eq).symm.trans done) (by simp)
    · next eq => exact ⟨rfl, (congrArg Prod.snd eq) ▸ next⟩
  · exact ⟨rfl, inserted _⟩

/-- A head that got full is sealed. -/
theorem Room.insertInto (room : Room settings st) (nodup : (st.series.map (·.1)).Nodup)
    (out) : Room settings (st.insertInto settings pt series head out).2 := by
  unfold MetricStripe.insertInto
  dsimp only
  split
  · have next : ∀ bytes, Room settings (sealSeries settings
        { st.setHead series (head.insert settings pt) with headBytes := bytes } series).2 := by
      intro bytes
      refine room_sealSeries series (nodup_setHead nodup) fun entry mem apart => ?_
      rcases mem_setHead.mp mem with rfl | ⟨mem, -⟩
      · exact absurd rfl apart
      · exact room entry mem
    have next := next (st.headBytes -
      ((head.points.filter (·.timestamp = pt.timestamp)).map settings.estimatedHeadBytes).sum +
        settings.estimatedHeadBytes pt)
    split
    · next eq => exact (congrArg Prod.snd eq) ▸ next
    · next eq => exact (congrArg Prod.snd eq) ▸ next
  · next short =>
    refine Room.setHead (fun entry mem _ => room entry mem)
      (lt_of_lt_of_le ?_ (Nat.le_max_left _ _))
    simp only [SeriesHead.full, Bool.or_eq_true, decide_eq_true_eq, not_or] at short
    exact Nat.not_le.mp short.1.1

/-- The invariant between operations: no head is full. -/
structure Steady (settings : Settings I A E)
    (offered accepted : List (DurableMetricPoint I A E))
    (stripe : MetricStripe I A E) : Prop
    extends Holds settings offered accepted stripe where
  room : Room settings stripe

/-- What is accepted after a point was applied. -/
def acceptedAfter (accepted : List (DurableMetricPoint I A E)) (point : DurableMetricPoint I A E)
    (result : TelemetryResult MetricApplyOutcome) : List (DurableMetricPoint I A E) :=
  if accepts result then accepted ++ [point] else accepted

theorem Steady.applyToHead (h : Steady settings offered accepted st)
    (storable : Storable settings offered) (ready : Ready settings st pt) (offers : pt ∈ offered)
    (found : st.sealedChunksAt settings (seriesOf settings pt) pt.timestamp = .ok dec) (protocol) :
    Steady settings offered
      (acceptedAfter accepted pt
        (st.applyToHead settings pt (seriesOf settings pt) dec.flatten protocol).1)
      (st.applyToHead settings pt (seriesOf settings pt) dec.flatten protocol).2 := by
  unfold MetricStripe.applyToHead
  dsimp only
  set head := st.headFor pt (seriesOf settings pt) with hhead
  set next := st.setHead (seriesOf settings pt) head with hnext
  have made : Steady settings offered accepted next :=
    ⟨h.setHeadFor ready offers, Room.setHead (fun entry mem _ => h.room entry mem)
      (h.room.headFor pt)⟩
  -- the points of its time that are stored, before and after the head is made
  have existing :
      ∀ other, Stored settings next other → pointKey settings other = pointKey settings pt →
      other ∈ (head.points ++ dec.flatten).filter (·.timestamp = pt.timestamp) := by
    intro other stored same
    refine mem_existing h.toHolds found ?_ same
    rcases stored with ⟨entry, mem, inside⟩ | stored
    · rcases mem_setHead.mp mem with rfl | ⟨mem, -⟩
      · rw [hhead, headFor] at inside
        cases known : st.head? (seriesOf settings pt) with
        | none =>
          rw [known] at inside
          cases inside
        | some head =>
          rw [known] at inside
          exact .inl ⟨_, mem_of_head? known, inside⟩
      · exact .inl ⟨entry, mem, inside⟩
    · exact .inr stored
  have here : (seriesOf settings pt, head) ∈ next.series := mem_setHead.mpr (.inl rfl)
  have ready' : Ready settings next pt := by
    refine ⟨ready.signal, fun other mem => ?_, ready.name, ready.labels⟩
    rcases mem_setHead.mp mem with eq | ⟨mem, -⟩
    · rw [(Prod.mk.inj eq).2]
      exact (ready.headOk h.toHolds).2
    · exact ready.agrees other mem
  -- the three outcomes of a point that is taken in
  have taken : ∀ out, accepts (.ok out) = true → (∀ other, Stored settings next other →
        pointKey settings other = pointKey settings pt → other.offset < pt.offset) →
      Steady settings offered
        (acceptedAfter accepted pt (next.insertInto settings pt (seriesOf settings pt) head out).1)
        (next.insertInto settings pt (seriesOf settings pt) head out).2 := by
    intro out accepted above
    obtain ⟨done, inserted⟩ := made.insertInto storable ready' offers here made.room above out
    rw [acceptedAfter, done, if_pos accepted]
    exact ⟨inserted, made.room.insertInto made.nodup out⟩
  generalize (head.points ++ dec.flatten).filter
    (fun other => decide (other.timestamp = pt.timestamp)) = points at existing ⊢
  split
  · exact made
  split
  · exact made
  split
  · next winner most =>
    split
    · exact made
    split
    · exact made
    · next above =>
      refine taken .replaced rfl fun other stored same => ?_
      have le :=
        (max?_eq_some_iff.mp most).2 _ (mem_map.mpr ⟨other, existing other stored same, rfl⟩)
      exact le.trans_lt (Nat.not_le.mp above)
  · next none =>
    refine taken _ ?_ fun other stored same => ?_
    · split <;> rfl
    · have mem := existing other stored same
      rw [map_eq_nil_iff.mp (max?_eq_none_iff.mp none)] at mem
      cases mem

section

omit [DecidableEq I] [DecidableEq A] [DecidableEq E]

/-- The indexes get a series that comes for the first time. -/
theorem Steady.indexed (h : Steady settings offered accepted st) (offers : pt ∈ offered) :
    Steady settings offered accepted (st.indexed settings pt (seriesOf settings pt)) := by
  unfold MetricStripe.indexed
  split
  · exact h
  · refine { h with
      names := ?_, labels := ?_, named := ?_, labelled := ?_, newest := h.newest, chunks := ?_ }
    · exact fun entry mem => (h.chunks entry mem).mono (List.Subset.refl _) fun head mem =>
        ⟨head, mem, rfl, rfl⟩
    · exact fun entry mem => mem_append_left _ (h.names entry mem)
    · exact fun entry mem label inside => mem_append_left _ (h.labels entry mem label inside)
    · intro entry mem
      rcases mem_append.mp mem with mem | mem
      · exact h.named entry mem
      · obtain rfl := mem_singleton.mp mem
        exact ⟨pt, offers, rfl, rfl⟩
    · intro entry mem
      rcases mem_append.mp mem with mem | mem
      · exact h.labelled entry mem
      · obtain ⟨label, inside, rfl⟩ := mem_map.mp mem
        exact ⟨pt, offers, rfl, inside⟩

/-- A point that does not collide is ready when its series is indexed. -/
theorem Holds.ready_indexed (h : Holds settings offered accepted st)
    (signal : pt.recordRef.signal = .metrics)
    (agrees : ∀ head, (seriesOf settings pt, head) ∈ st.series →
      head.identity = pt.identity ∧ head.topicPartition = pt.recordRef.topicPartition) :
    Ready settings (st.indexed settings pt (seriesOf settings pt)) pt := by
  unfold indexed
  split
  · next known =>
    obtain ⟨head, found⟩ := Option.isSome_iff_exists.mp known
    have mem := mem_of_head? found
    obtain ⟨ident, -⟩ := agrees head mem
    exact ⟨signal, agrees, ident ▸ h.names _ mem, ident ▸ h.labels _ mem⟩
  · refine ⟨signal, agrees, by simp, fun label mem => ?_⟩
    exact mem_append_right _ (mem_map.mpr ⟨label, mem, rfl⟩)

end

section

variable (h : Steady settings offered accepted st) (storable : Storable settings offered)
include h storable

theorem Steady.sealSeries (series) :
    Steady settings offered accepted (st.sealSeries settings series).2 :=
  ⟨(h.toHolds.sealSeries storable series).2,
    room_sealSeries series h.nodup fun entry mem _ => h.room entry mem⟩

theorem Steady.applyRef (offers : pt ∈ offered) (protocol) :
    Steady settings offered (acceptedAfter accepted pt (st.applyRef settings pt protocol).1)
      (st.applyRef settings pt protocol).2 := by
  unfold MetricStripe.applyRef
  split
  · exact h
  next signal =>
  have series : settings.backend.fingerprint pt.identity = seriesOf settings pt := rfl
  simp only [series]
  split
  · exact h
  next apart =>
  have agrees : ∀ head, (seriesOf settings pt, head) ∈ st.series →
      head.identity = pt.identity ∧ head.topicPartition = pt.recordRef.topicPartition := by
    intro head mem
    unfold collides at apart
    rw [head?_of_mem h.nodup mem] at apart
    simpa only [ne_eq, decide_not, Bool.or_eq_true, Bool.not_eq_true',
      decide_eq_false_iff_not, not_or, not_not] using apart
  have ready := h.ready_indexed (not_not.mp signal) agrees
  have indexed := h.indexed offers
  split
  · exact indexed
  have ready := reserve_invariant (P := (Ready settings · pt))
    (fun _ series h => h.sealSeries series)
    (settings.estimatedHeadBytes pt) ready
  have reserved := reserve_invariant (P := Steady settings offered accepted)
    (fun _ series h => h.sealSeries storable series) (settings.estimatedHeadBytes pt) indexed
  split
  · next eq =>
    rw [eq] at reserved
    exact reserved
  next eq =>
  rw [eq] at reserved ready
  split
  · exact reserved
  split
  · exact reserved
  · next found => exact reserved.applyToHead storable ready offers found protocol

end

/-! ## Histories -/

/-- The points that the operations bring. -/
def offeredBy : List (MetricOp I A E) →
    List (DurableMetricPoint I A E)
  | [] => []
  | .apply point _ :: ops => point :: offeredBy ops
  | .sealPartition _ :: ops => offeredBy ops

omit [DecidableEq I] [DecidableEq A] [DecidableEq E] in
theorem Steady.new : Steady settings offered [] (.new : MetricStripe I A E) where
  within := nil_subset _
  nodup := .nil
  known := by simp [MetricStripe.new]
  heads := by simp [MetricStripe.new]
  chunks := by simp [MetricStripe.new]
  newest pt newest := absurd newest.mem not_mem_nil
  determined := by simp [Determined]
  names := by simp [MetricStripe.new]
  labels := by simp [MetricStripe.new]
  named := by simp [MetricStripe.new]
  labelled := by simp [MetricStripe.new]
  room := by simp [Room, MetricStripe.new]

theorem Steady.step (h : Steady settings offered accepted st) (storable : Storable settings offered)
    (op) (offers : offeredBy [op] ⊆ offered) :
    Steady settings offered (step settings (st, accepted) op).2
      (step settings (st, accepted) op).1 := by
  cases op with
  | apply pt protocol => exact h.applyRef storable (offers mem_cons_self) protocol
  | sealPartition part =>
    exact sealEach_invariant (fun _ series h => h.sealSeries storable series) _ h

theorem Steady.foldl (storable : Storable settings offered) (ops) (offers : offeredBy ops ⊆ offered)
    (hist) (h : Steady settings offered hist.2 hist.1) :
    Steady settings offered (ops.foldl (MetricStripe.step settings) hist).2
      (ops.foldl (MetricStripe.step settings) hist).1 := by
  induction ops generalizing hist with
  | nil => exact h
  | cons op ops ih =>
    cases op with
    | apply pt protocol =>
      refine ih (fun other mem => offers (.tail _ mem)) _ (h.step storable _ ?_)
      exact fun other mem => offers (mem_singleton.mp mem ▸ .head _)
    | sealPartition part => exact ih offers _ (h.step storable _ (nil_subset _))

/-- The invariant holds after any history. -/
theorem Steady.run (ops) (storable : Storable settings (offeredBy ops)) :
    Steady settings (offeredBy ops) (run settings ops).2 (run settings ops).1 :=
  Steady.foldl storable ops (List.Subset.refl _) _ .new

end ShardTelemetry.Metric
