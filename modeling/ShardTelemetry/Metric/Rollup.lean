import ShardTelemetry.Metric.Stripe

/-!
# Lifetime rollups

The catalog keeps one rollup for each series, and for each partition the offset of the first point
that is not in the rollups yet.  A batch may repeat points that are; they are passed over.  The
store applies a batch to a copy of its catalog, and keeps the copy if the whole batch was accepted
(`stage`).

How a snapshot adds to the total of its series and the order of numbers are parameters
(`RollupValues`), and the file of the catalog is left out.
-/

namespace ShardTelemetry.Metric

open List Function

/-- What rollups use of identities and of values. -/
structure RollupValues (I : Type) where
  fingerprint : I → BitVec 128
  /-- From the lifetime total, the snapshot before and the snapshot: the new total, and whether the
  instrument was reset. -/
  accumulate : I → MetricValue → MetricValue → MetricValue → TelemetryResult (MetricValue × Bool)
  numberMin : NumberValue → NumberValue → NumberValue
  numberMax : NumberValue → NumberValue → NumberValue

structure LifetimeMetricRollup (I : Type) where
  series : BitVec 128
  identity : I
  description : String
  firstTimestampUnixNanos : UInt64
  lastTimestampUnixNanos : UInt64
  observedPoints : Nat
  resetCount : Nat
  outcome : MetricValue
  numericMin : Option NumberValue
  numericMax : Option NumberValue

structure RollupState (I : Type) where
  rollup : LifetimeMetricRollup I
  lastRawValue : MetricValue

/-- What a batch changes point by point. -/
structure RollupSeries (I : Type) where
  rollups : AList fun _ : BitVec 128 => RollupState I
  incorporatedPoints : Nat

structure MetricRollupCatalog (I : Type) extends RollupSeries I where
  maxSeries : Nat
  checkpoints : PartitionRef → Option Nat

variable {I A E : Type} [DecidableEq I] (values : RollupValues I)

def updateState (state : RollupState I) (point : DurableMetricPoint I A E) :
    TelemetryResult (RollupState I) := do
  ensure (state.rollup.identity = point.identity)
    (.invalidMetricSample "lifetime rollup series identity changed")
  let (outcome, reset) ← values.accumulate point.identity state.rollup.outcome
    state.lastRawValue point.value
  let rollup := { state.rollup with
    outcome
    description := point.description
    firstTimestampUnixNanos := min state.rollup.firstTimestampUnixNanos point.timestampUnixNanos
    lastTimestampUnixNanos := max state.rollup.lastTimestampUnixNanos point.timestampUnixNanos
    observedPoints := saturatingAdd state.rollup.observedPoints 1
    resetCount := saturatingAdd state.rollup.resetCount reset.toNat }
  match point.value with
  | .gauge value =>
    return ⟨{ rollup with
      numericMin := some (rollup.numericMin.elim value (values.numberMin · value))
      numericMax := some (rollup.numericMax.elim value (values.numberMax · value)) }, point.value⟩
  | _ => return ⟨rollup, point.value⟩

def applyPoint (maxSeries : Nat) (rollups : AList fun _ : BitVec 128 => RollupState I)
    (point : DurableMetricPoint I A E) :
    TelemetryResult (AList fun _ : BitVec 128 => RollupState I) := do
  let series := values.fingerprint point.identity
  match rollups.lookup series with
  | some state => return rollups.insert series (← updateState values state point)
  | none =>
    ensure (rollups.entries.length < maxSeries)
      (.invalidConfiguration s!"lifetime metric rollup series limit {maxSeries} exhausted")
    let numeric := match point.value with
      | .gauge value => some value
      | _ => none
    return rollups.insert series
      ⟨⟨series, point.identity, point.description, point.timestampUnixNanos,
      point.timestampUnixNanos, 1, 0, point.value, numeric, numeric⟩, point.value⟩

/-- The loop over the points of a batch, with the offset of the next one. -/
def applyPoints (maxSeries : Nat) (partition : PartitionRef) (expected : Nat) :
    RollupSeries I → Nat → List (DurableMetricPoint I A E) → TelemetryResult (RollupSeries I × Nat)
  | series, offset, [] => .ok (series, offset)
  | series, offset, point :: rest => do
    let nextOffset ← okOr (.offsetExhausted ⟨partition.1.toNat, partition.2.toNat⟩)
      (checkedAdd offset 1)
    if offset < expected then
      applyPoints maxSeries partition expected series nextOffset rest
    else
      let rollups ← applyPoint values maxSeries series.rollups
        { point with recordRef := { point.recordRef with
          topicId := partition.1, partitionId := partition.2, offset := .ofNat offset } }
      applyPoints maxSeries partition expected
        ⟨rollups, saturatingAdd series.incorporatedPoints 1⟩ nextOffset
        rest

def applyBatch (catalog : MetricRollupCatalog I) (partition : PartitionRef) (firstOffset : Nat)
    (points : List (DurableMetricPoint I A E)) : TelemetryResult (MetricRollupCatalog I) := do
  let expected := (catalog.checkpoints partition).getD firstOffset
  ensure (firstOffset ≤ expected)
    (.invalidMetricSample "lifetime metric rollup WAL checkpoint has a gap")
  let (series, nextOffset) ← applyPoints values catalog.maxSeries partition expected
    catalog.toRollupSeries
    firstOffset points
  -- The loop leaves the checkpoint alone, so that reading it again gives what was expected.
  return { catalog with
    toRollupSeries := series
    checkpoints := update catalog.checkpoints partition (some (max expected nextOffset)) }

/-- A batch is applied to a copy. -/
def stage (partition : PartitionRef) (catalog : MetricRollupCatalog I) (firstOffset : Nat)
    (points : List (DurableMetricPoint I A E)) : MetricRollupCatalog I :=
  match applyBatch values catalog partition firstOffset points with
  | .ok staged => staged
  | .error _ => catalog

/-! ## What the loop does -/

variable {values} {partition : PartitionRef} {points : List (DurableMetricPoint I A E)}

theorem applyPoints_append (more) :
    applyPoints values maxSeries partition expected series offset (points ++ more) =
      applyPoints values maxSeries partition expected series offset points >>= fun done =>
        applyPoints values maxSeries partition expected done.1 done.2 more := by
  induction points generalizing series offset with
  | nil => rfl
  | cons point rest ih =>
    simp only [cons_append, applyPoints, bind_assoc]
    congr 1
    funext next
    split
    · exact ih
    · rw [bind_assoc]
      congr 1
      funext rollups
      exact ih

theorem applyPoints_offset
    (h : applyPoints values maxSeries partition expected series offset points = .ok done) :
    done.2 = offset + points.length ∧ (points ≠ [] → done.2 < u64Bound) := by
  induction points generalizing series offset with
  | nil =>
    cases h
    exact ⟨rfl, fun h => absurd rfl h⟩
  | cons point rest ih =>
    obtain ⟨next, fits, h⟩ := bind_eq_ok.mp h
    simp only [okOr_eq_ok, checkedAdd, Option.ite_none_right_eq_some, Option.some.injEq] at fits
    obtain ⟨fits, rfl⟩ := fits
    have after : done.2 = offset + 1 + rest.length ∧ (rest ≠ [] → done.2 < u64Bound) := by
      split at h
      · exact ih h
      · obtain ⟨_, _, h⟩ := bind_eq_ok.mp h
        exact ih h
    rw [length_cons]
    refine ⟨by omega, fun _ => ?_⟩
    rcases rest with _ | ⟨next, rest⟩
    · rw [after.1]
      exact fits
    · exact after.2 (cons_ne_nil _ _)

/-- Points before the checkpoint are passed over. -/
theorem applyPoints_before (known : offset + points.length ≤ expected)
    (wide : points ≠ [] → offset + points.length < u64Bound) :
    applyPoints values maxSeries partition expected series offset points =
      .ok (series, offset + points.length) := by
  induction points generalizing offset with
  | nil => rfl
  | cons point rest ih =>
    have wide := wide (cons_ne_nil _ _)
    rw [length_cons] at known wide ⊢
    have fits : checkedAdd offset 1 = some (offset + 1) := if_pos (by omega)
    rw [applyPoints, fits]
    simp only [okOr, bind, Except.bind]
    rw [if_pos (by omega), ih (by omega) (fun _ => by omega), Nat.add_right_comm, Nat.add_assoc]

/-- After an offset it is of no matter that the points up to it are expected. -/
theorem applyPoints_max (h : reached ≤ offset) :
    applyPoints values maxSeries partition (max expected reached) series offset points =
      applyPoints values maxSeries partition expected series offset points := by
  induction points generalizing series offset with
  | nil => rfl
  | cons point rest ih =>
    have same : offset < max expected reached ↔ offset < expected := by omega
    simp only [applyPoints, same]
    rcases fits : checkedAdd offset 1 with _ | next
    · rfl
    simp only [checkedAdd, Option.ite_none_right_eq_some, Option.some.injEq] at fits
    have later : reached ≤ next := by omega
    simp only [okOr, bind, Except.bind, ih later]

/-! ## Batches -/

variable {catalog next whole : MetricRollupCatalog I} {base : Nat}

/-- A batch that leaves no gap is accepted when its points are. -/
theorem applyBatch_eq (h : (catalog.checkpoints partition).getD base = expected)
    (le : base ≤ expected) : applyBatch values catalog partition base points =
      (applyPoints values catalog.maxSeries partition expected catalog.toRollupSeries
        base points).map
        fun done => { catalog with
          toRollupSeries := done.1
          checkpoints := update catalog.checkpoints partition (some (max expected done.2)) } := by
  simp only [applyBatch, h, ensure, decide_eq_true le, if_pos]
  cases applyPoints values catalog.maxSeries partition expected catalog.toRollupSeries base
    points <;> rfl

/-- What an accepted batch leaves. -/
theorem applyBatch_eq_ok (h : applyBatch values catalog partition base points = .ok next) :
    ∃ expected after, (catalog.checkpoints partition).getD base = expected ∧ base ≤ expected ∧
      applyPoints values catalog.maxSeries partition expected catalog.toRollupSeries base points =
        .ok (after, base + points.length) ∧
      (points ≠ [] → base + points.length < u64Bound) ∧
      next = { catalog with
        toRollupSeries := after
        checkpoints := update catalog.checkpoints partition
          (some (max expected (base + points.length))) } := by
  obtain ⟨_, gapless, h⟩ := bind_eq_ok.mp h
  obtain ⟨⟨after, last⟩, run, h⟩ := bind_eq_ok.mp h
  cases h
  obtain ⟨rfl, wide⟩ := applyPoints_offset run
  exact ⟨_, after, rfl, of_decide_eq_true (ensure_eq_ok.mp gapless), run, wide, rfl⟩

/-- A batch that starts with points that are in the rollups adds those after them. -/
theorem applyBatch_extend (done : applyBatch values catalog partition base known = .ok next)
    (gapless : start ≤ known.length) : applyBatch values next partition (base + start) points =
      applyBatch values catalog partition base (known ++ points.drop (known.length - start)) := by
  obtain ⟨expected, after, at_, le, run, wide, rfl⟩ := applyBatch_eq_ok done
  have reached {offset : Nat} : (update catalog.checkpoints partition
      (some (max expected (base + known.length))) partition).getD offset =
        max expected (base + known.length) := by
    rw [update_self, Option.getD_some]
  have first := length_take_le (known.length - start) points
  rw [applyBatch_eq at_ le, applyPoints_append, run, applyBatch_eq reached (by omega),
    ← take_append_drop (known.length - start) points, applyPoints_append,
      applyPoints_before (by omega),
    take_append_drop]
  · by_cases short : points.length ≤ known.length - start
    · rw [drop_eq_nil_of_le short]
      simp only [applyPoints, bind, Except.bind, Except.map, update_idem]
      rw [max_eq_left (by omega)]
    · have last :
          base + start + (points.take (known.length - start)).length = base + known.length := by
        rw [length_take]
        omega
      simp only [bind, Except.bind, last, applyPoints_max le_rfl]
      cases rest :
        applyPoints values catalog.maxSeries partition expected after (base + known.length)
          (points.drop (known.length - start)) with
      | error error => rfl
      | ok done =>
        have := (applyPoints_offset rest).1
        simp only [Except.map, update_idem, max_assoc]
        rw [max_eq_right (a := base + known.length) (by omega)]
  · intro some
    have := length_pos_iff.mpr some
    have := wide (length_pos_iff.mp (by omega))
    omega

/-- The first points of an accepted batch are accepted. -/
theorem applyBatch_take (accepted : applyBatch values catalog partition base points = .ok whole)
    (stop) : ∃ next, applyBatch values catalog partition base (points.take stop) = .ok next := by
  obtain ⟨expected, after, at_, le, run, _⟩ := applyBatch_eq_ok accepted
  rw [← take_append_drop stop points, applyPoints_append] at run
  obtain ⟨first, run, _⟩ := bind_eq_ok.mp run
  rw [applyBatch_eq at_ le, run]
  exact ⟨_, rfl⟩

/-! ## Deliveries -/

/-- Batches of a sequence, by where they start and end in it, that leave no gap and reach its
end. -/
def Covers (length : Nat) : Nat → List (Nat × Nat) → Prop
  | reached, [] => reached = length
  | reached, batch :: rest =>
    batch.1 ≤ reached ∧ batch.2 ≤ length ∧ Covers length (max reached batch.2) rest

/-- The batches of a sequence are staged one after the other. -/
def deliver (values : RollupValues I) (partition : PartitionRef) (base : Nat)
    (points : List (DurableMetricPoint I A E)) (catalog : MetricRollupCatalog I)
    (batches : List (Nat × Nat)) : MetricRollupCatalog I :=
  batches.foldl (fun catalog batch =>
    stage values partition catalog (base + batch.1) ((points.take batch.2).drop batch.1)) catalog

/-- Once a first batch is there, the catalog is as after one batch up to the furthest point that was
reached. -/
theorem deliver_reached (accepted : applyBatch values catalog partition base points = .ok whole)
    (done : applyBatch values catalog partition base (points.take reached) = .ok next)
    (inside : reached ≤ points.length) (covers : Covers points.length reached batches) :
    deliver values partition base points next batches = whole := by
  induction batches generalizing reached next with
  | nil =>
    cases covers
    rw [take_length, accepted] at done
    cases done
    rfl
  | cons batch rest ih =>
    obtain ⟨gapless, stop, covers⟩ := covers
    obtain ⟨after, staged⟩ := applyBatch_take accepted (max reached batch.2)
    have parts : points.take reached ++ (points.take batch.2).drop reached =
        points.take (max reached batch.2) := by
      rw [drop_take, ← take_add, Nat.add_comm, Nat.sub_add_eq_max, max_comm]
    have extend :
        applyBatch values next partition (base + batch.1) ((points.take batch.2).drop batch.1) =
        .ok after := by
      rw [applyBatch_extend done (by rwa [length_take_of_le inside]), drop_drop,
        length_take_of_le inside, Nat.add_sub_cancel' gapless, parts, staged]
    rw [deliver, foldl_cons, stage, extend]
    exact ih staged (max_le inside stop) covers

/-- Two series, which keep their latest values. -/
def sampleRollups : RollupValues Bool where
  fingerprint identity := identity.toNat
  accumulate _ _ _ current := .ok (current, false)
  numberMin left _ := left
  numberMax left _ := left

def sampleSnapshot (identity : Bool) : DurableMetricPoint Bool Unit Unit :=
  ⟨0, ⟨.metrics, 0, 0, 0⟩, identity, "", (), 0, 0, 0, .gauge (.integer 0), ()⟩

/-- A catalog for one series. -/
def sampleCatalog : MetricRollupCatalog Bool := ⟨⟨∅, 0⟩, 1, fun _ => none⟩

end ShardTelemetry.Metric
