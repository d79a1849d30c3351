import ShardTelemetry.Metric.RoundTrip

/-!
# Which points can be stored in a chunk

The points of a chunk have to agree on their series, partition and owner.  Besides that a chunk is
written and read back if the libraries accept its lanes, the lengths of its sections can be written
in four bytes, and what is compressed is within the limits of the decoder (`Fits`).  The other steps
of the encoder never fail.
-/

namespace ShardTelemetry.Metric

open Bytes List

/-! ## Timestamps -/

variable {prev delta : Nat}

theorem deltaAfter_eq (h : prev ≤ time) : deltaAfter prev time = .ok (time - prev) :=
  if_pos h

/-- A difference of two differences has a token: only the least number would have none. -/
theorem deltaToken_isOk {prevDelta : Nat} (hdelta : delta < 2 ^ 64)
    (hprevious : prevDelta < 2 ^ 64) :
    ∃ token, deltaToken ((delta : Int) - prevDelta) = .ok token := by
  have signed : (BitVec.ofInt 128 ((delta : Int) - prevDelta)).toInt = delta - prevDelta := by
    rw [BitVec.toInt_ofInt]
    apply Int.bmod_eq_of_le <;> omega
  have room :
      (Varint.zigzag (BitVec.ofInt 128 ((delta : Int) - prevDelta))).toNat + 1 < 2 ^ 128 := by
    refine Nat.lt_of_le_of_ne (Varint.zigzag _).isLt fun full => ?_
    have ones :
        Varint.zigzag (BitVec.ofInt 128 ((delta : Int) - prevDelta)) = BitVec.allOnes 128 := by
      apply BitVec.eq_of_toNat_eq
      rw [BitVec.toNat_allOnes, ← full, Nat.add_sub_cancel]
    have least := Varint.unzigzag_zigzag (BitVec.ofInt 128 ((delta : Int) - prevDelta))
    rw [ones] at least
    rw [← least] at signed
    have value : (Varint.unzigzag (BitVec.allOnes 128)).toInt = -2 ^ 127 := by decide +kernel
    omega
  exact ⟨_, if_pos room⟩

theorem extendRun_isOk (delta run) (sorted : (runPrevious :: times).Pairwise (· ≤ ·)) :
    ∃ extended, extendRun delta run runPrevious times = .ok extended := by
  induction times generalizing run runPrevious with
  | nil => exact ⟨_, rfl⟩
  | cons cand rest ih =>
    obtain ⟨first, sorted⟩ := pairwise_cons.mp sorted
    have step := deltaAfter_eq (first cand mem_cons_self)
    by_cases same : cand - runPrevious = delta
    · obtain ⟨extended, done⟩ := ih (run + 1) sorted
      exact ⟨extended, bind_ok step ((if_neg (not_not_intro same)).trans done)⟩
    · exact ⟨_, bind_ok step (if_pos same)⟩

/-- Sorted timestamps are encoded, from whichever place in a run. -/
theorem encodeDeltas_isOk {covered current : Nat} (sorted : (current :: times).Pairwise (· ≤ ·))
    (bounded : ∀ time ∈ times, time < 2 ^ 64) (ahead : Ahead delta covered current times)
    (run : prev = current + covered * delta) (hdelta : delta < 2 ^ 64) :
    ∃ enc, encodeDeltas prev delta covered times = .ok enc := by
  induction times generalizing covered current prev delta with
  | nil => cases covered <;> exact ⟨[], rfl⟩
  | cons time rest ih =>
    obtain ⟨first, later⟩ := pairwise_cons.mp sorted
    obtain ⟨bound, bounded'⟩ := forall_mem_cons.mp bounded
    cases covered with
    | succ covered =>
      -- the timestamp belongs to a run that is written already
      obtain ⟨_, eq, ahead⟩ := ahead
      cases eq
      exact ih later bounded' ahead (by rw [run, Nat.add_one_mul]; omega) hdelta
    | zero =>
      rw [Nat.zero_mul, Nat.add_zero] at run
      subst run
      have step := deltaAfter_eq (first time mem_cons_self)
      by_cases same : ((time - prev : Nat) : Int) - delta = 0
      · obtain ⟨⟨more, runPrevious⟩, extended⟩ := extendRun_isOk (time - prev) 1 later
        have eq : time - prev = delta := by omega
        obtain ⟨covered, rfl, rfl, ahead⟩ := extendRun_eq_ok extended
        rw [eq] at ahead
        obtain ⟨enc, done⟩ := ih later bounded' ahead rfl hdelta
        refine ⟨_, bind_ok step ((if_pos same).trans (bind_eq_ok.mpr ⟨_, extended,
          bind_eq_ok.mpr ⟨enc, ?_, rfl⟩⟩))⟩
        rw [eq, Nat.add_sub_cancel_left]
        exact done
      · have hnext : time - prev < 2 ^ 64 := by omega
        obtain ⟨token, tokened⟩ := deltaToken_isOk hnext hdelta
        obtain ⟨enc, done⟩ := ih later bounded' (show Ahead (time - prev) 0 time rest from trivial)
          (show time = time + 0 * (time - prev) by omega) hnext
        exact ⟨_, bind_ok step ((if_neg same).trans (bind_eq_ok.mpr ⟨token, tokened,
          bind_eq_ok.mpr ⟨enc, done, rfl⟩⟩))⟩

theorem encodeTimestampDeltaOfDelta_isOk (sorted : times.Pairwise (· ≤ ·))
    (bounded : ∀ time ∈ times, time < 2 ^ 64) :
    ∃ enc, encodeTimestampDeltaOfDelta times = .ok enc := by
  match times, sorted, bounded with
  | [], _, _ => exact ⟨_, rfl⟩
  | [first], _, _ => exact ⟨_, rfl⟩
  | first :: second :: rest, sorted, bounded =>
    obtain ⟨le, sorted⟩ := pairwise_cons.mp sorted
    have le := le second mem_cons_self
    have bound := bounded second (by simp)
    have bounded' : ∀ time ∈ rest, time < 2 ^ 64 := fun other mem => bounded other (by simp [mem])
    obtain ⟨enc, done⟩ := encodeDeltas_isOk sorted bounded'
      (show Ahead (second - first) 0 second rest from trivial)
      (show second = second + 0 * (second - first) by omega) (by omega)
    exact ⟨_, bind_ok (deltaAfter_eq le) (bind_eq_ok.mpr ⟨enc, done, rfl⟩)⟩

/-! ## Sidecars -/

section Interner

variable {α : Type} [DecidableEq α]

namespace MetricSidecarInterner

theorem idOf_isOk {ix : Nat} (h : ix < 2 ^ 32) : idOf ix = .ok (UInt32.ofNat ix) := if_pos h

variable {interner : MetricSidecarInterner α}

theorem promoted_isOk (ix) {values : List α} (h : ix + values.length ≤ 2 ^ 32) :
    ∃ ids, promoted ix values = .ok ids := by
  induction values generalizing ix with
  | nil => exact ⟨_, rfl⟩
  | cons value rest ih =>
    rw [length_cons] at h
    obtain ⟨ids, done⟩ := ih (ix + 1) (by omega)
    exact ⟨_, bind_ok (idOf_isOk (by omega)) (bind_eq_ok.mpr ⟨ids, done, rfl⟩)⟩

/-- There is an index for one more value, and the table grows by one value at most. -/
theorem intern_isOk (h : interner.values.length < 2 ^ 32) (value : α) :
    ∃ id next, interner.intern value = .ok (id, next) ∧
      next.values.length ≤ interner.values.length + 1 := by
  have pushed : ∀ interner : MetricSidecarInterner α, interner.values.length < 2 ^ 32 →
      ∃ id next, interner.push value = .ok (id, next) ∧
        next.values.length ≤ interner.values.length + 1 := by
    intro interner h
    exact ⟨_, _, bind_ok (idOf_isOk h) rfl, by simp⟩
  unfold intern
  split
  · split
    · exact ⟨_, _, rfl, Nat.le_succ _⟩
    · exact pushed interner h
  · split
    · next ix found =>
      have place := (idxOf?_eq_some_iff.mp found).1
      exact ⟨_, _, bind_ok (idOf_isOk (by omega)) rfl, Nat.le_succ _⟩
    · split
      · obtain ⟨ids, done⟩ := promoted_isOk 0 (show 0 + interner.values.length ≤ 2 ^ 32 by omega)
        obtain ⟨id, next, found, length⟩ := pushed ⟨interner.values, some ids⟩ h
        exact ⟨id, next, bind_ok (a := ids) done found, length⟩
      · exact pushed interner h

end MetricSidecarInterner

end Interner

section Chunk

variable {I A E : Type} [DecidableEq I] [DecidableEq A] [DecidableEq E]

section

omit [DecidableEq I]

theorem packSidecars_isOk (interners : Interners A E) (points : List (DurableMetricPoint I A E))
    (descriptions : interners.descriptions.values.length + points.length ≤ 2 ^ 32)
    (metadataSets : interners.metadataSets.values.length + points.length ≤ 2 ^ 32)
    (exemplarSets : interners.exemplarSets.values.length + points.length ≤ 2 ^ 32) :
    ∃ packed, packSidecars interners points = .ok packed := by
  induction points generalizing interners with
  | nil => exact ⟨_, rfl⟩
  | cons pt rest ih =>
    rw [length_cons] at descriptions metadataSets exemplarSets
    obtain ⟨descriptionId, nextDescriptions, described, grown⟩ :=
      interners.descriptions.intern_isOk (by omega) pt.description
    obtain ⟨metadataId, nextMetadata, annotated, grown'⟩ :=
      interners.metadataSets.intern_isOk (by omega) pt.metadata
    obtain ⟨exemplarsId, nextExemplars, exemplified, grown''⟩ :=
      interners.exemplarSets.intern_isOk (by omega) pt.exemplars
    obtain ⟨⟨next, packed⟩, done⟩ := ih ⟨nextDescriptions, nextMetadata, nextExemplars⟩
      (by dsimp only; omega) (by dsimp only; omega) (by dsimp only; omega)
    exact ⟨_, bind_ok described (bind_eq_ok.mpr ⟨_, annotated, bind_eq_ok.mpr ⟨_, exemplified,
      bind_eq_ok.mpr ⟨_, done, rfl⟩⟩⟩)⟩

theorem encodeMetricSidecars_isOk {points : List (DurableMetricPoint I A E)}
    (h : points.length < 2 ^ 32) (ident : I) :
    ∃ sides, encodeMetricSidecars ident points = .ok sides := by
  obtain ⟨packed, done⟩ := packSidecars_isOk (⟨.new, .new, .new⟩ : Interners A E) points
    (by simpa [MetricSidecarInterner.new] using h.le)
      (by simpa [MetricSidecarInterner.new] using h.le)
    (by simpa [MetricSidecarInterner.new] using h.le)
  exact ⟨_, bind_ok (a := packed) done rfl⟩

end

/-! ## Chunks that can be stored -/

/-- The libraries accept the lanes of the points, the lengths can be written, and what is compressed
is within the limits of the decoder. -/
structure Fits (backend : Backend I A E)
    (points : List (DurableMetricPoint I A E)) : Prop where
  count : points.length < 2 ^ 32
  values :
    ∃ lane, encodeMetricValues backend ((backend.sortUnstable points).map (·.value)) = .ok lane ∧
    lane.length < 2 ^ 32
  offsets : ∃ lane, backend.offsets.simpleCompress
    ((backend.sortUnstable points).map (·.recordRef.offset)) = .ok lane ∧ lane.length < 2 ^ 32
  timestamps : ∀ lane, encodeTimestampDeltaOfDelta
    ((backend.sortUnstable points).map (·.timestampUnixNanos.toNat)) = .ok lane →
      lane.length < 2 ^ 32
  sidecars : ∀ first ∈ points.head?, ∀ sidecars,
    encodeMetricSidecars first.identity (backend.sortUnstable points) = .ok sidecars →
      ∃ raw compressed, backend.sidecars.toVec sidecars = .ok raw ∧
        backend.zstd.compress raw = .ok compressed ∧ compressed.length < 2 ^ 32 ∧
        raw.length ≤ sidecarLimit
  lanes : LanesWithinLimit backend ((backend.sortUnstable points).map (·.value))

omit [DecidableEq A] [DecidableEq E] in
/-- Points that agree have the identity of the first, whichever of them comes first once they are
sorted. -/
theorem identity_head_of_agrees
    {sorted : List (DurableMetricPoint I A E)} (agree : ∀ pt ∈ sorted, first.agrees pt = true) :
    (sorted.head?.getD first).identity = first.identity := by
  cases sorted with
  | nil => rfl
  | cons pt rest =>
    have same := agree pt mem_cons_self
    simp only [DurableMetricPoint.agrees, Bool.and_eq_true, decide_eq_true_eq] at same
    exact same.2

section Stored

variable {rest : List (DurableMetricPoint I A E)}

omit [DecidableEq A] [DecidableEq E] in
theorem agrees_sorted (be : Backend I A E) (agree : (first :: rest).all first.agrees = true) :
    ∀ pt ∈ be.sortUnstable (first :: rest), first.agrees pt = true := by
  intro pt mem
  exact all_eq_true.mp agree pt ((be.sortUnstable_perm _).subset mem)

omit [DecidableEq I] [DecidableEq A] [DecidableEq E] in
theorem length_sorted (be : Backend I A E) (first : DurableMetricPoint I A E)
    (rest : List (DurableMetricPoint I A E)) :
    (be.sortUnstable (first :: rest)).length = rest.length + 1 :=
  (be.sortUnstable_perm _).length_eq

/-- Points that agree and fit are encoded, and decoded in their order. -/
theorem stored_of_fits (agree : (first :: rest).all first.agrees = true)
    (fits : Fits be (first :: rest)) : ∃ enc, encodeMetricChunk be (first :: rest) = .ok enc ∧
      decodeMetricChunk be enc = .ok (be.sortUnstable (first :: rest)) := by
  have agreed := agrees_sorted be agree
  have length := length_sorted be first rest
  have short : (be.sortUnstable (first :: rest)).length < 2 ^ 32 := by
    rw [length]
    exact fits.count
  obtain ⟨values, valuesEncoded, valuesFit⟩ := fits.values
  obtain ⟨offs, offsetsEncoded, offsetsFit⟩ := fits.offsets
  obtain ⟨sides, packed⟩ := encodeMetricSidecars_isOk short first.identity
  obtain ⟨raw, zip, serialized, done, sidecarsFit, limit⟩ := fits.sidecars first rfl sides packed
  have sorted :
      ((be.sortUnstable (first :: rest)).map (·.timestampUnixNanos.toNat)).Pairwise (· ≤ ·) := by
    refine pairwise_map.mpr ((be.sortUnstable_pairwise _).imp ?_)
    intro left right le
    rcases Prod.Lex.le_iff.mp le with lt | ⟨eq, _⟩
    · exact lt.le
    · exact eq.le
  obtain ⟨times, timestampsEncoded⟩ := encodeTimestampDeltaOfDelta_isOk sorted (by
    intro time mem
    obtain ⟨pt, -, rfl⟩ := mem_map.mp mem
    exact pt.timestampUnixNanos.toNat_lt)
  have timestampsFit := fits.timestamps times timestampsEncoded
  have of : ChunkSections.Of be ((be.sortUnstable (first :: rest)).head?.getD first).identity
      (be.sortUnstable (first :: rest)) ⟨values, sides, raw, zip, offs, times⟩ := by
    rw [identity_head_of_agrees agreed]
    exact ⟨valuesEncoded, packed, serialized, done, short, offsetsEncoded,
      timestampsEncoded, offsetsFit, timestampsFit, valuesFit, sidecarsFit⟩
  refine ⟨_, encodeMetricChunk_eq_ok.mpr ⟨agree, _, of, rfl⟩, ?_⟩
  exact (of.encoded agreed (by rw [length]; exact Nat.succ_ne_zero _) fits.lanes limit).decode

end Stored

end Chunk

end ShardTelemetry.Metric
