import ShardTelemetry.Lib.Writes
import ShardTelemetry.Metric.Codec

/-!
# Custom buckets of a Remote Write histogram

Over the wire, the buckets of a native histogram are spans and the counts of all spans in one list,
given as differences or as doubles.  With custom bounds they are expanded to dense buckets.  A span
may go back, so that two counts are to stand at one position: then the later one overwrites the
other, and only then (`custom_buckets_preserved_iff`).

The protobuf messages are taken as they are after parsing.  Doubles are their bits.
-/

namespace ShardTelemetry.RemoteWrite

open ShardTelemetry.Metric List Writes

/-! ## Decoding -/

/-- An error of this decoder. -/
def sampleError (reason : String) : TelemetryError := .invalidMetricSample reason

/-- The running counts of integer buckets. -/
def deltaCounts : Int → List Int64 → TelemetryResult (List HistogramCount)
  | _, [] => .ok []
  | previous, delta :: rest => do
    let count := previous + delta.toInt
    ensure (-2 ^ 127 ≤ count && count < 2 ^ 127) (sampleError "histogram bucket delta overflow")
    ensure (0 ≤ count && count < u64Bound) (sampleError "histogram bucket count is negative")
    let counts ← deltaCounts count rest
    return .integer (UInt64.ofNat count.toNat) :: counts

/-- The number of buckets that the spans cover. -/
def spanLength : Nat → List HistogramBucketSpan → TelemetryResult Nat
  | total, [] => .ok total
  | total, span :: rest => do
    let total ← okOr (sampleError "histogram span length overflow")
      (checkedAdd total span.length.toNat)
    spanLength total rest

/-- The counts of the buckets, given as differences or as doubles. -/
def bucketCounts (expected : Nat) (deltas : List Int64) (counts : List (BitVec 64)) :
    TelemetryResult (List HistogramCount) :=
  if deltas.isEmpty then do
    ensure (counts.length = expected)
      (sampleError "histogram float bucket count does not match spans")
    return counts.map .doubleBits
  else do
    ensure (deltas.length = expected)
      (sampleError "histogram integer bucket count does not match spans")
    deltaCounts 0 deltas

def decodeBuckets (spans : List HistogramBucketSpan) (deltas : List Int64)
    (counts : List (BitVec 64)) : TelemetryResult (Option ExponentialHistogramBuckets) := do
  let expected ← spanLength 0 spans
  if expected = 0 then
    ensure (deltas.isEmpty && counts.isEmpty) (sampleError "histogram bucket values have no spans")
    return none
  else
    ensure (deltas.isEmpty || counts.isEmpty)
      (sampleError "histogram cannot mix integer deltas and float counts")
    let bucketCounts ← bucketCounts expected deltas counts
    return some ⟨spans, bucketCounts⟩

/-- The loop over the spans of a histogram with custom bounds: the next counts go where the span
says. -/
def expandSpans : Bool → Int → List HistogramCount → List HistogramCount →
    List HistogramBucketSpan → TelemetryResult (List HistogramCount)
  | _, _, _, output, [] => .ok output
  | first, priorEnd, counts, output, span :: rest => do
    let start := if first then span.offset.toInt
      else min (priorEnd + span.offset.toInt) (2 ^ 63 - 1)
    ensure (0 ≤ start) (sampleError "custom histogram span starts before bucket zero")
    let finish := start + span.length.toNat
    ensure (finish < 2 ^ 63) (sampleError "custom histogram span overflow")
    ensure (finish ≤ output.length) (sampleError "custom histogram span exceeds custom bounds")
    let written := output.take start.toNat ++ counts.take span.length.toNat ++
      output.drop finish.toNat
    expandSpans false finish (counts.drop span.length.toNat) written rest

def expandCustomBuckets (buckets : Option ExponentialHistogramBuckets) (outputLen : Nat) :
    TelemetryResult (List HistogramCount) :=
  match buckets with
  | none => .ok (List.replicate outputLen (.integer 0))
  | some buckets =>
    let isDouble : HistogramCount → Bool
      | .doubleBits _ => true
      | .integer _ => false
    let fill := if buckets.bucketCounts.any isDouble then .doubleBits 0 else .integer 0
    expandSpans true 0 buckets.bucketCounts (List.replicate outputLen fill) buckets.spans

/-! ## What is decoded -/

/-- The buckets that spans with differences or doubles describe. -/
def BucketsCarried (spans : List HistogramBucketSpan) (deltas : List Int64)
    (counts : List (BitVec 64)) : Option ExponentialHistogramBuckets → Prop
  | none => deltas = [] ∧ counts = []
  | some buckets => buckets.spans = spans ∧
    (deltas = [] ∧ buckets.bucketCounts = counts.map .doubleBits ∨
      counts = [] ∧ ∃ totals : List UInt64, buckets.bucketCounts = totals.map .integer ∧
        deltas.map (·.toInt) = zipWith (fun (total previous : Int) => total - previous)
          (totals.map fun total => (total.toNat : Int))
            (0 :: totals.map fun total => (total.toNat : Int)))

/-- The running counts have the differences they were made of. -/
theorem deltaCounts_eq_ok {prev : Int} (h : deltaCounts prev deltas = .ok counts) :
    ∃ totals : List UInt64, counts = totals.map .integer ∧
      deltas.map (·.toInt) = zipWith (fun (total prev : Int) => total - prev)
        (totals.map fun total => (total.toNat : Int))
        (prev :: totals.map fun total => (total.toNat : Int)) := by
  induction deltas generalizing prev counts with
  | nil =>
    cases h
    exact ⟨[], rfl, rfl⟩
  | cons delta rest ih =>
    obtain ⟨_, _, h⟩ := bind_eq_ok.mp h
    obtain ⟨_, range, h⟩ := bind_eq_ok.mp h
    obtain ⟨later, done, h⟩ := bind_eq_ok.mp h
    cases h
    obtain ⟨totals, rfl, differences⟩ := ih done
    have range := Bool.and_eq_true_iff.mp (ensure_eq_ok.mp range)
    have sign := of_decide_eq_true range.1
    have bound := of_decide_eq_true range.2
    have total : ((UInt64.ofNat (prev + delta.toInt).toNat).toNat : Int) = prev + delta.toInt := by
      rw [UInt64.toNat_ofNat_of_lt' (show _ < u64Bound by omega)]
      omega
    refine ⟨UInt64.ofNat (prev + delta.toInt).toNat :: totals, rfl, ?_⟩
    rw [map_cons, map_cons, zipWith_cons_cons, total, ← differences]
    congr 1
    omega

/-- The positions that the spans designate, behind the end of the span before. -/
def positions : Int → List HistogramBucketSpan → List Int
  | _, [] => []
  | priorEnd, span :: rest =>
    let start := priorEnd + span.offset.toInt
    ((range span.length.toNat).map fun i : Nat => start + i) ++
      positions (start + span.length.toNat) rest

/-- The counts that buckets have. -/
def countsOf (buckets : Option ExponentialHistogramBuckets) : List HistogramCount :=
  buckets.elim [] (·.bucketCounts)

theorem spanLength_eq_ok (h : spanLength total spans = .ok want) (priorEnd) :
    want = total + (positions priorEnd spans).length := by
  induction spans generalizing total priorEnd with
  | nil =>
    cases h
    rfl
  | cons span spans ih =>
    obtain ⟨next, added, h⟩ := bind_eq_ok.mp h
    rw [ih h, (checkedAdd_eq_some.mp (okOr_eq_ok.mp added)).1, positions, length_append, length_map,
      length_range, Nat.add_assoc]

theorem decodeBuckets_eq_ok (h : decodeBuckets spans deltas counts = .ok buckets) :
    BucketsCarried spans deltas counts buckets ∧
      (countsOf buckets).length = (positions 0 spans).length := by
  obtain ⟨want, counted, h⟩ := bind_eq_ok.mp h
  rw [← Nat.zero_add (length (positions _ _)), ← spanLength_eq_ok counted]
  split at h
  · next none =>
    obtain ⟨_, empty, h⟩ := bind_eq_ok.mp h
    cases h
    exact ⟨by simpa [BucketsCarried] using ensure_eq_ok.mp empty, none.symm⟩
  · obtain ⟨_, single, h⟩ := bind_eq_ok.mp h
    obtain ⟨bucketed, made, h⟩ := bind_eq_ok.mp h
    cases h
    unfold bucketCounts at made
    split at made
    · next none =>
      obtain ⟨_, same, made⟩ := bind_eq_ok.mp made
      cases made
      exact ⟨⟨rfl, .inl ⟨by simpa using none, rfl⟩⟩, by simpa [countsOf] using ensure_eq_ok.mp same⟩
    · next some =>
      obtain ⟨_, same, made⟩ := bind_eq_ok.mp made
      obtain ⟨totals, rfl, differences⟩ := deltaCounts_eq_ok made
      have length : deltas.length = totals.length := by simpa using congrArg List.length differences
      exact ⟨⟨rfl, .inr ⟨by simpa [some] using single, totals, rfl, differences⟩⟩,
        by simpa [countsOf, length] using ensure_eq_ok.mp same⟩

/-! ## Custom buckets -/

/-- Whether a count is other than zero.  There are two zeros among the doubles. -/
def nonzero : HistogramCount → Bool
  | .integer count => count ≠ 0
  | .doubleBits bits => bits <<< 1 ≠ 0

/-- Each count stands at the position that its span designates, and the counts other than zero are
those of the input. -/
structure Preserved (spans : List HistogramBucketSpan) (counts dense : List HistogramCount) :
    Prop where
  stands : ∀ entry ∈ (positions 0 spans).zip counts,
    0 ≤ entry.1 ∧ dense[entry.1.toNat]? = some entry.2
  nonzero : (dense.filter nonzero).Perm (counts.filter nonzero)

/-- The spans designate no position for two counts, unless both are the same zero. -/
def Apart (spans : List HistogramBucketSpan) (counts : List HistogramCount) : Prop :=
  ((positions 0 spans).zip counts).Pairwise fun left right =>
    left.1 = right.1 → left.2 = right.2 ∧ nonzero left.2 = false

instance (spans : List HistogramBucketSpan) (counts : List HistogramCount) :
    Decidable (Apart spans counts) :=
  inferInstanceAs (Decidable (List.Pairwise ..))

/-- The first span starts as if one had ended at zero. -/
theorem expandSpans_first :
    expandSpans true 0 counts output spans = expandSpans false 0 counts output spans := by
  cases spans with
  | nil => rfl
  | cons span spans =>
    have small := span.offset.toInt_lt
    unfold expandSpans
    rw [if_pos rfl, if_neg Bool.false_ne_true, min_eq_left (by omega), zero_add]

/-- A span writes the next counts where it starts. -/
theorem expandSpans_step {span : HistogramBucketSpan} (allocated : output.length < 2 ^ 59)
    (h : expandSpans false priorEnd counts output (span :: spans) = .ok dense)
    (enough : span.length.toNat ≤ counts.length) :
    ∃ start : Nat, priorEnd + span.offset.toInt = start ∧
      start + span.length.toNat ≤ output.length ∧
      expandSpans false (start + span.length.toNat) (counts.drop span.length.toNat)
        (writes output ((range' start span.length.toNat).zip (counts.take span.length.toNat)))
          spans = .ok dense := by
  obtain ⟨_, atLeast, h⟩ := bind_eq_ok.mp h
  obtain ⟨_, _, h⟩ := bind_eq_ok.mp h
  obtain ⟨_, fits, h⟩ := bind_eq_ok.mp h
  have atLeast := of_decide_eq_true (ensure_eq_ok.mp atLeast)
  have fits := of_decide_eq_true (ensure_eq_ok.mp fits)
  rw [if_neg Bool.false_ne_true] at atLeast fits h
  -- the sum is not clamped, since the span ends within the output
  rw [min_eq_left (by omega)] at atLeast fits h
  obtain ⟨start, starts⟩ := Int.eq_ofNat_of_zero_le atLeast
  rw [starts] at fits h
  have size : (counts.take span.length.toNat).length = span.length.toNat := length_take_of_le enough
  have inside : start + (counts.take span.length.toNat).length ≤ output.length := by omega
  have finish : ((start : Int) + span.length.toNat).toNat = start + span.length.toNat := by omega
  have wrote := take_append_append_drop inside
  rw [size] at wrote
  rw [finish, Int.toNat_natCast, wrote] at h
  exact ⟨start, starts, by omega, h⟩

/-- The loop over the spans writes each count at its position. -/
theorem expandSpans_writes (allocated : output.length < 2 ^ 59)
    (h : expandSpans false priorEnd counts output spans = .ok dense)
    (counted : counts.length = (positions priorEnd spans).length) :
    ∃ places : List Nat, positions priorEnd spans = places.map (↑) ∧
      (∀ place ∈ places, place < output.length) ∧ dense = writes output (places.zip counts) := by
  induction spans generalizing priorEnd counts output with
  | nil =>
    cases h
    exact ⟨[], rfl, nofun, rfl⟩
  | cons span spans ih =>
    rw [positions, length_append, length_map, length_range] at counted
    obtain ⟨start, starts, fits, next⟩ := expandSpans_step allocated h (by omega)
    rw [starts] at counted
    obtain ⟨places, placed, inside, rfl⟩ :=
      ih (by rwa [length_writes]) next (by rw [length_drop]; omega)
    refine ⟨range' start span.length.toNat ++ places, ?_, ?_, ?_⟩
    · rw [positions, starts, placed, map_append, range'_eq_map_range, map_map]
      rfl
    · intro place mem
      obtain here | later := mem_append.mp mem
      · have := mem_range'_1.mp here
        omega
      · simpa using inside place later
    · have size :
          (range' start span.length.toNat).length = (counts.take span.length.toNat).length := by
        rw [length_range', length_take_of_le (by omega)]
      conv_rhs => rw [← take_append_drop span.length.toNat counts]
      rw [zip_append size, writes, writes, writes, foldl_append]

/-- Writing the counts over zeros preserves them if and only if their positions are apart. -/
theorem preserved_writes_iff {places : List Nat} (zero : nonzero fill = false)
    (placed : positions 0 spans = places.map (↑)) (inside : ∀ place ∈ places, place < outputLen)
    (size : counts.length ≤ places.length) :
    Preserved spans counts (writes (replicate outputLen fill) (places.zip counts)) ↔
      Apart spans counts := by
  have inside : ∀ w ∈ places.zip counts, w.1 < (replicate outputLen fill).length := fun w mem => by
    rw [length_replicate]
    exact inside w.1 (of_mem_zip mem).1
  have kept := filter_writes_perm_iff nonzero (by simp [zero]) inside
  rw [map_snd_zip size] at kept
  have held := getElem?_writes_iff inside
  have apart : Apart spans counts ↔
      (places.zip counts).Pairwise (fun left right => left.1 = right.1 → left.2 = right.2) ∧
        (places.zip counts).Pairwise fun left right => left.1 = right.1 →
          nonzero left.2 = false := by
    rw [Apart, placed, zip_map_left, pairwise_map]
    simp only [Prod.map_fst, Prod.map_snd, Nat.cast_inj, id_eq, imp_and]
    exact pairwise_and_iff
  rw [apart, ← held, ← kept]
  refine ⟨fun h => ⟨fun w mem => ?_, h.nonzero⟩, fun h => ⟨?_, h.2⟩⟩
  · have stands := h.stands
    rw [placed, zip_map_left, forall_mem_map] at stands
    simpa using (stands w mem).2
  · rw [placed, zip_map_left, forall_mem_map]
    simpa using h.1

/-- The counts of custom buckets are preserved if and only if the spans designate no position for
two of them, unless both are the same zero. -/
theorem custom_buckets_preserved_iff (decoded : decodeBuckets spans deltas counts = .ok buckets)
    (expanded : expandCustomBuckets buckets outputLen = .ok dense)
    (allocated : outputLen < 2 ^ 59) :
    BucketsCarried spans deltas counts buckets ∧ dense.length = outputLen ∧
      (Preserved spans (countsOf buckets) dense ↔ Apart spans (countsOf buckets)) := by
  obtain ⟨carried, counted⟩ := decodeBuckets_eq_ok decoded
  refine ⟨carried, ?_⟩
  cases buckets with
  | none =>
    cases expanded
    refine ⟨length_replicate, iff_of_true ⟨?_, ?_⟩ ?_⟩
    · simp [countsOf]
    · simp [countsOf, RemoteWrite.nonzero]
    · simp [Apart, countsOf]
  | some buckets =>
    obtain ⟨rfl, -⟩ := carried
    simp only [expandCustomBuckets, expandSpans_first] at expanded
    obtain ⟨places, placed, inside, rfl⟩ :=
      expandSpans_writes (by rwa [length_replicate]) expanded counted
    rw [placed, length_map] at counted
    rw [length_replicate] at inside
    exact ⟨by simp, preserved_writes_iff (by split <;> rfl) placed inside counted.le⟩

/-- The second span goes back over a gap, to a position that the first one left free. -/
def gapSpans : List HistogramBucketSpan := [⟨1, 1⟩, ⟨-2, 1⟩, ⟨1, 1⟩]

theorem custom_buckets_preserved_gap :
    ∃ dense,
      expandCustomBuckets (some ⟨gapSpans, [.integer 5, .integer 3, .integer 3]⟩) 6 = .ok dense ∧
      Preserved gapSpans [.integer 5, .integer 3, .integer 3] dense := by
  have decoded : decodeBuckets gapSpans [5, -2, 0] [] =
      .ok (some ⟨gapSpans, [.integer 5, .integer 3, .integer 3]⟩) := by decide
  exact ⟨_, rfl,
    (custom_buckets_preserved_iff decoded rfl (show 6 < 2 ^ 59 by decide)).2.2.mpr (by decide)⟩

/-- A span that goes back overwrites the count before. -/
theorem custom_buckets_overwritten :
    ¬ ∀ spans deltas counts buckets outputLen dense,
      decodeBuckets spans deltas counts = .ok buckets →
      expandCustomBuckets buckets outputLen = .ok dense → outputLen < 2 ^ 59 →
        Preserved spans (countsOf buckets) dense := by
  intro all
  have preserved := all [⟨0, 1⟩, ⟨-1, 1⟩] [5, 2] []
    (some ⟨[⟨0, 1⟩, ⟨-1, 1⟩], [.integer 5, .integer 7]⟩) 1 [.integer 7] (by decide)
      (by decide) (by decide)
  exact absurd (preserved.stands (0, .integer 5) (by decide)).2 (by decide)

end ShardTelemetry.RemoteWrite
