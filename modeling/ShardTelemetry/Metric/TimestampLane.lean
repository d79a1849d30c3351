import ShardTelemetry.Metric.Codec

/-!
# The lane of timestamps

Encoder and decoder pass over the timestamps one at a time.  Within a run the encoder is ahead: it
has written the run when it comes to its first timestamp, while the decoder is at the timestamp it
has produced.  `Ahead` says how the two are related.
-/

namespace ShardTelemetry.Metric

open Bytes List

/-! ## Differences -/

variable {prev delta : Nat}

theorem deltaAfter_eq_ok (h : deltaAfter prev time = .ok delta) : time = prev + delta := by
  unfold deltaAfter at h
  split at h
  · cases h
    omega
  · cases h

theorem timestampAfter_eq (h : prev + delta < 2 ^ 64) :
    timestampAfter prev delta = .ok (prev + delta) := by
  rw [timestampAfter, checkedAdd, if_pos (show prev + delta < u64Bound from h)]
  rfl

/-- The token of a difference of differences gives the difference back. -/
theorem deltaOfToken_deltaToken {prevDelta token : Nat} (hprevious : prevDelta < 2 ^ 64)
    (hdelta : delta < 2 ^ 64) (h : deltaToken ((delta : Int) - prevDelta) = .ok token) :
    0 < token ∧ token < 2 ^ 128 ∧ deltaOfToken prevDelta token = .ok delta := by
  unfold deltaToken at h
  dsimp only at h
  split at h
  · next room =>
    cases h
    refine ⟨Nat.succ_pos _, room, ?_⟩
    have signed : (BitVec.ofInt 128 ((delta : Int) - prevDelta)).toInt = delta - prevDelta := by
      rw [BitVec.toInt_ofInt]
      apply Int.bmod_eq_of_le <;> omega
    have sum : (prevDelta : Int) + ((delta : Int) - prevDelta) = delta := by omega
    rw [deltaOfToken, Nat.add_sub_cancel, BitVec.ofNat_toNat, BitVec.setWidth_eq,
      Varint.unzigzag_zigzag, signed, sum]
    have range : (0 : Int) ≤ delta ∧ (delta : Int) < u64Bound := by
      unfold u64Bound
      omega
    rw [if_pos range]
    rfl
  · cases h

/-! ## Runs -/

/-- The next timestamps are one difference apart each. -/
def Ahead (delta : Nat) : Nat → Nat → List Nat → Prop
  | 0, _, _ => True
  | count + 1, current, timestamps =>
    ∃ rest, timestamps = (current + delta) :: rest ∧ Ahead delta count (current + delta) rest

theorem Ahead.count_le {count : Nat} (h : Ahead delta count current times) :
    count ≤ times.length := by
  induction count generalizing current times with
  | zero => exact Nat.zero_le _
  | succ count ih =>
    obtain ⟨rest, rfl, h⟩ := h
    exact Nat.succ_le_succ (ih h)

theorem extendRun_eq_ok (h : extendRun delta run runPrevious times = .ok (run', runPrevious')) :
    ∃ more, run' = run + more ∧ runPrevious' = runPrevious + more * delta ∧
      Ahead delta more runPrevious times := by
  induction times generalizing run runPrevious with
  | nil =>
    cases h
    exact ⟨0, rfl, by omega, trivial⟩
  | cons cand rest ih =>
    obtain ⟨candidateDelta, step, h⟩ := bind_eq_ok.mp h
    split at h
    · cases h
      exact ⟨0, rfl, by omega, trivial⟩
    · next same =>
      have same : candidateDelta = delta := by omega
      obtain rfl := deltaAfter_eq_ok step
      subst same
      obtain ⟨more, rfl, rfl, ahead⟩ := ih h
      refine ⟨more + 1, by omega, ?_, rest, rfl, ahead⟩
      ring

/-! ## The round trip -/

theorem reads_readVarint (h : value < 2 ^ 64) : Reads readVarint (writeVarint value) value :=
  Varint.reads_read h

theorem reads_readVarint128 (h : value < 2 ^ 128) :
    Reads readVarint128 (writeVarint128 value) value :=
  Varint.reads_read h

theorem reads_decodeDeltas (bounded : ∀ time ∈ times, time < 2 ^ 64)
    (short : times.length < 2 ^ 64) {covered : Nat}
    (ahead : Ahead delta covered current times) (run : prev = current + covered * delta)
    (hdelta : delta < 2 ^ 64) (h : encodeDeltas prev delta covered times = .ok enc) :
    Reads (decodeDeltas times.length covered current delta) enc times := by
  induction times generalizing covered current prev delta enc with
  | nil =>
    have empty : enc = [] := by
      cases covered <;> cases h <;> rfl
    rw [empty]
    exact Reads.pure []
  | cons time rest ih =>
    obtain ⟨bound, bounded'⟩ := forall_mem_cons.mp bounded
    rw [length_cons] at short
    have short' : rest.length < 2 ^ 64 := by omega
    cases covered with
    | succ covered =>
      -- the timestamp belongs to a run that both have
      obtain ⟨_, eq, ahead⟩ := ahead
      obtain ⟨rfl, rfl⟩ := cons.inj eq
      refine Reads.lift (timestampAfter_eq bound) ?_
      refine (ih bounded' short' ahead ?_ hdelta h).map _
      rw [run]
      ring
    | zero =>
      have start : prev = current := by omega
      subst start
      obtain ⟨delta', step, h⟩ := bind_eq_ok.mp h
      obtain rfl := deltaAfter_eq_ok step
      have hdelta' : delta' < 2 ^ 64 := by omega
      dsimp only at h
      split at h
      · next zero =>
        have same : delta' = delta := by omega
        subst same
        obtain ⟨⟨count, last⟩, extended, h⟩ := bind_eq_ok.mp h
        obtain ⟨tail, wrote, h⟩ := bind_eq_ok.mp h
        cases h
        obtain ⟨more, rfl, rfl, ahead⟩ := extendRun_eq_ok extended
        have le := ahead.count_le
        rw [Nat.add_sub_cancel_left] at wrote
        have later := ih bounded' short' ahead rfl hdelta wrote
        rw [append_assoc]
        refine (reads_readVarint128 (by decide)).bind ?_
        refine (reads_readVarint (show 1 + more < 2 ^ 64 by omega)).bind ?_
        refine Reads.require (by simp; omega) (Reads.lift (timestampAfter_eq bound) ?_)
        rw [Nat.add_sub_cancel_left]
        exact later.map _
      · next nonzero =>
        obtain ⟨token, tokenized, h⟩ := bind_eq_ok.mp h
        obtain ⟨tail, wrote, h⟩ := bind_eq_ok.mp h
        cases h
        obtain ⟨pos, wide, back⟩ := deltaOfToken_deltaToken hdelta hdelta' tokenized
        have here : prev + delta' = prev + delta' + 0 * delta' := by omega
        have none : Ahead delta' 0 (prev + delta') rest := trivial
        have later := ih bounded' short' none here hdelta' wrote
        refine (reads_readVarint128 wide).bind ?_
        rw [if_neg (Nat.ne_of_gt pos)]
        exact Reads.lift back (Reads.lift (timestampAfter_eq bound) (later.map _))

/-- The lane of timestamps is read back. -/
theorem decodeTimestampDeltaOfDelta_encode (nonempty : times ≠ [])
    (bounded : ∀ time ∈ times, time < 2 ^ 64) (short : times.length < 2 ^ 64)
    (h : encodeTimestampDeltaOfDelta times = .ok enc) :
    decodeTimestampDeltaOfDelta enc times.length = .ok times := by
  obtain ⟨first, later, rfl⟩ := exists_cons_of_ne_nil nonempty
  have bound : first < 256 ^ 8 := bounded first mem_cons_self
  -- the first timestamp is followed by what the others are read from
  obtain ⟨tail, rfl, reads⟩ : ∃ tail, enc = toLE 8 first ++ tail ∧
      Reads (decodeTimestamps first later.length) tail (first :: later) := by
    cases later with
    | nil =>
      cases h
      exact ⟨[], (append_nil _).symm, Reads.pure _⟩
    | cons second rest =>
      obtain ⟨delta, step, h⟩ := bind_eq_ok.mp h
      obtain ⟨tail, wrote, h⟩ := bind_eq_ok.mp h
      cases h
      refine ⟨writeVarint delta ++ tail, append_assoc _ _ _, ?_⟩
      obtain rfl := deltaAfter_eq_ok step
      have second : first + delta < 2 ^ 64 := bounded _ (by simp)
      have hdelta : delta < 2 ^ 64 := by omega
      have rest : Reads (decodeDeltas rest.length 0 (first + delta) delta) tail rest := by
        refine reads_decodeDeltas (fun other mem => bounded other (by simp [mem])) ?_ trivial
          (by omega) hdelta wrote
        simp only [length_cons] at short
        omega
      exact (reads_readVarint hdelta).bind (Reads.lift (timestampAfter_eq second) (rest.map _))
  refine ensure_bind_ok (by simp) ?_
  refine bind_ok (a := (first :: later, [])) ?_ rfl
  rw [take_left' (length_toLE 8 _), drop_left' (length_toLE 8 _), ofLE_toLE bound,
    length_cons, Nat.add_sub_cancel]
  exact reads.run

end ShardTelemetry.Metric
