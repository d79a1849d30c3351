import ShardTelemetry.Metric.DoubleLane
import ShardTelemetry.Metric.TimestampLane

/-!
# The lane of values

Whichever encoding is selected, the decoder finds it by its first byte and returns the values.  The
encodings for values of one kind project that kind out of each value and put it back after decoding;
the encoding for mixed kinds is read back value by value, with the last double as the state of both
sides.
-/

namespace ShardTelemetry.Metric

open Bytes

/-! ## Sections -/

section Sections

/-- A section with its length. -/
def framed (contents : List UInt8) : List UInt8 := toLE 4 contents.length ++ contents

theorem appendSection_eq_ok : appendSection data = .ok enc ↔
    data.length < 2 ^ 32 ∧ enc = framed data := by
  constructor
  · intro h
    obtain ⟨length, counted, h⟩ := bind_eq_ok.mp h
    cases h
    obtain ⟨fits, rfl⟩ := lengthBytes_eq_ok.mp counted
    exact ⟨fits, rfl⟩
  · rintro ⟨fits, rfl⟩
    exact bind_ok (lengthBytes_eq_ok.mpr ⟨fits, rfl⟩) rfl

theorem reads_readSection (fits : data.length < 2 ^ 32) : Reads readSection (framed data) data :=
  (Reads.uint fits).bind (Reads.take rfl)

theorem reads_readMessagepack
    (h : appendMessagepack pack value = .ok enc) : Reads (readMessagepack pack) enc value := by
  obtain ⟨bytes, packed, h⟩ := bind_eq_ok.mp h
  obtain ⟨fits, rfl⟩ := appendSection_eq_ok.mp h
  have found := pack.lossless _ _ (compressing_eq_ok.mp packed)
  intro rest
  show (readSection (framed bytes ++ rest) >>= fun p => _) = _
  rw [reads_readSection fits rest]
  show Bytes.lift (okOr _ (pack.fromSlice bytes)) rest = _
  rw [found]
  rfl

end Sections

/-! ## Values of one kind -/

section OneKind

variable {α : Type}

theorem decompressInto_lossless (h : compressing (pco.simpleCompress values) = .ok enc)
    (failed mismatch) : decompressInto pco enc values.length failed mismatch = .ok values := by
  have found := pco.lossless _ _ (compressing_eq_ok.mp h)
  refine bind_ok (okOr_eq_ok.mpr found) ?_
  exact ensure_bind_ok (by simp) rfl

theorem decodeIntegerValueLane_encode (h : encodeIntegerValueLane pco codec values = .ok enc) :
    ∃ load, enc = codec :: load ∧ decodeIntegerValueLane pco load values.length = .ok values := by
  obtain ⟨zip, done, h⟩ := bind_eq_ok.mp h
  cases h
  exact ⟨zip, rfl, decompressInto_lossless done _ _⟩

theorem decodeZstdValueLane_encode {values : List α}
    (limit : ∀ raw, pack.toVec values = .ok raw → raw.length ≤ valueLaneLimit)
    (h : encodeZstdValueLane zstd pack codec values = .ok enc) :
    ∃ load, enc = codec :: load ∧
      decodeZstdValueLane zstd pack load values.length = .ok values := by
  obtain ⟨raw, packed, h⟩ := bind_eq_ok.mp h
  obtain ⟨zip, done, h⟩ := bind_eq_ok.mp h
  obtain ⟨length, counted, h⟩ := bind_eq_ok.mp h
  cases h
  obtain ⟨fits, rfl⟩ := lengthBytes_eq_ok.mp counted
  have packed := compressing_eq_ok.mp packed
  refine ⟨toLE 4 raw.length ++ zip, rfl, ?_⟩
  have hdr : ofLE ((toLE 4 raw.length ++ zip).take 4) = raw.length := by
    rw [List.take_left' (length_toLE 4 _), ofLE_toLE fits]
  have rest : (toLE 4 raw.length ++ zip).drop 4 = zip := List.drop_left' (length_toLE 4 _)
  refine ensure_bind_ok (by simp) ?_
  rw [hdr, rest]
  refine ensure_bind_ok (decide_eq_true (limit raw packed)) ?_
  refine bind_ok (a := raw)
    (decoding_eq_ok.mpr (zstd.lossless _ _ _ (compressing_eq_ok.mp done) le_rfl)) ?_
  refine bind_ok (a := values) (okOr_eq_ok.mpr (pack.lossless _ _ packed)) ?_
  exact ensure_bind_ok (by simp) rfl

/-- Values of one kind are what was projected out of them. -/
theorem map_of_mapM (section' : ∀ value a, select value = some a → inject a = value) {sel : List α}
    (h : values.mapM select = some sel) : sel.map inject = values ∧ sel.length = values.length := by
  induction values generalizing sel with
  | nil =>
    cases h
    exact ⟨rfl, rfl⟩
  | cons value values ih =>
    rw [List.mapM_cons] at h
    obtain ⟨a, first, h⟩ := Option.bind_eq_some_iff.mp h
    obtain ⟨rest, later, h⟩ := Option.bind_eq_some_iff.mp h
    cases h
    obtain ⟨map, length⟩ := ih later
    exact ⟨by rw [List.map_cons, map, section' value a first], by simp [length]⟩

theorem numberOf_gauge (h : numberOf true false value = some integer) :
    .gauge (.integer integer) = value := by
  unfold numberOf at h
  split at h <;> simp_all

theorem numberOf_sum (h : numberOf false true value = some integer) :
    .sum (.integer integer) = value := by
  unfold numberOf at h
  split at h <;> simp_all

theorem doubleOf_gauge (h : doubleOf true value = some bits) :
    .gauge (.doubleBits bits) = value := by
  unfold doubleOf at h
  split at h <;> simp_all

theorem doubleOf_sum (h : doubleOf false value = some bits) : .sum (.doubleBits bits) = value := by
  unfold doubleOf at h
  split at h <;> simp_all

theorem explicitHistogramOf_eq {histogram : ExplicitHistogramValue}
    (h : explicitHistogramOf value = some histogram) : .explicitHistogram histogram = value := by
  cases value <;> cases h
  rfl

theorem exponentialHistogramOf_eq {histogram : ExponentialHistogramValue}
    (h : exponentialHistogramOf value = some histogram) :
    .exponentialHistogram histogram = value := by
  cases value <;> cases h
  rfl

theorem summaryOf_eq {summary : SummaryValue} (h : summaryOf value = some summary) :
    .summary summary = value := by
  cases value <;> cases h
  rfl

end OneKind

/-! ## Values of mixed kinds -/

section Mixed

variable {I A E : Type}

theorem reads_decodeNumber (value) : Reads (decodeNumber prevFloat) (encodeNumber prevFloat value).1
      (value, (encodeNumber prevFloat value).2) := by
  cases value with
  | integer value =>
    refine (Reads.byte 0).bind ?_
    have reads := (reads_readVarint (Varint.zigzag value.toBitVec).isLt).map fun read =>
      (NumberValue.integer (Int64.ofBitVec (Varint.unzigzag (BitVec.ofNat 64 read))), prevFloat)
    rw [BitVec.ofNat_toNat, BitVec.setWidth_eq, Varint.unzigzag_zigzag] at reads
    exact reads
  | doubleBits bits =>
    refine (Reads.byte 1).bind ?_
    have back : bits ^^^ prevFloat ^^^ prevFloat = bits := by
      rw [BitVec.xor_assoc, BitVec.xor_self, BitVec.xor_zero]
    have reads := (reads_readVarint (bits ^^^ prevFloat).isLt).map fun read =>
      (NumberValue.doubleBits (BitVec.ofNat 64 read ^^^ prevFloat),
        BitVec.ofNat 64 read ^^^ prevFloat)
    rw [BitVec.ofNat_toNat, BitVec.setWidth_eq, back] at reads
    exact reads

theorem reads_decodeTagged (h : encodeTagged be prevFloat value = .ok (enc, nextFloat)) :
    Reads (decodeTagged be prevFloat) enc (value, nextFloat) := by
  cases value with
  | gauge value =>
    cases h
    exact (Reads.byte 0).bind ((reads_decodeNumber value).map _)
  | sum value =>
    cases h
    exact (Reads.byte 1).bind ((reads_decodeNumber value).map _)
  | explicitHistogram value =>
    obtain ⟨packed, done, h⟩ := bind_eq_ok.mp h
    cases h
    exact (Reads.byte 2).bind ((reads_readMessagepack done).map _)
  | exponentialHistogram value =>
    obtain ⟨packed, done, h⟩ := bind_eq_ok.mp h
    cases h
    exact (Reads.byte 3).bind ((reads_readMessagepack done).map _)
  | summary value =>
    obtain ⟨packed, done, h⟩ := bind_eq_ok.mp h
    cases h
    exact (Reads.byte 4).bind ((reads_readMessagepack done).map _)

theorem reads_decodeMixed (h : encodeMixed be prevFloat values = .ok enc) :
    Reads (decodeMixed be values.length prevFloat) enc values := by
  induction values generalizing prevFloat enc with
  | nil =>
    cases h
    exact Reads.pure []
  | cons value values ih =>
    obtain ⟨⟨first, nextFloat⟩, tagged, h⟩ := bind_eq_ok.mp h
    obtain ⟨rest, later, h⟩ := bind_eq_ok.mp h
    cases h
    exact (reads_decodeTagged tagged).bind ((ih later).map _)

end Mixed

/-! ## The selected encoding -/

section Selected

variable {I A E : Type}

/-- What the lanes of histograms and summaries pack is within the limit of the decoder. -/
structure LanesWithinLimit (backend : Backend I A E)
    (values : List MetricValue) : Prop where
  explicitHistograms : ∀ histograms raw, values.mapM explicitHistogramOf = some histograms →
    backend.explicitHistograms.toVec histograms = .ok raw → raw.length ≤ valueLaneLimit
  exponentialHistograms : ∀ histograms raw, values.mapM exponentialHistogramOf = some histograms →
    backend.exponentialHistograms.toVec histograms = .ok raw → raw.length ≤ valueLaneLimit
  summaries : ∀ summaries raw, values.mapM summaryOf = some summaries →
    backend.summaries.toVec summaries = .ok raw → raw.length ≤ valueLaneLimit

/-- What was projected out of the values is put back. -/
theorem put_back {sel : List α} {dec : Nat → TelemetryResult (List α)}
    (selects : sel.map inject = values ∧ sel.length = values.length)
    (back : dec sel.length = .ok sel) :
    (do
      let found ← dec values.length
      return found.map inject) = .ok values := by
  rw [← selects.2, back, ← selects.1]
  rfl

/-- The lane of values is read back. -/
theorem decodeMetricValues_encode (limit : LanesWithinLimit be values)
    (h : encodeMetricValues be values = .ok enc) :
    decodeMetricValues be enc values.length = .ok values := by
  unfold encodeMetricValues at h
  split at h
  · next sel =>
    obtain ⟨load, rfl, back⟩ := decodeIntegerValueLane_encode h
    exact put_back (map_of_mapM (fun _ _ => numberOf_gauge) sel) back
  split at h
  · next sel =>
    obtain ⟨load, rfl, back⟩ := decodeDoubleValueLane_encode h
    exact put_back (map_of_mapM (fun _ _ => doubleOf_gauge) sel) back
  split at h
  · next sel =>
    obtain ⟨load, rfl, back⟩ := decodeIntegerValueLane_encode h
    exact put_back (map_of_mapM (fun _ _ => numberOf_sum) sel) back
  split at h
  · next sel =>
    obtain ⟨load, rfl, back⟩ := decodeDoubleValueLane_encode h
    exact put_back (map_of_mapM (fun _ _ => doubleOf_sum) sel) back
  split at h
  · next sel =>
    obtain ⟨load, rfl, back⟩ :=
      decodeZstdValueLane_encode (fun raw => limit.explicitHistograms _ raw sel) h
    exact put_back (map_of_mapM (fun _ _ => explicitHistogramOf_eq) sel) back
  split at h
  · next sel =>
    obtain ⟨load, rfl, back⟩ :=
      decodeZstdValueLane_encode (fun raw => limit.exponentialHistograms _ raw sel) h
    exact put_back (map_of_mapM (fun _ _ => exponentialHistogramOf_eq) sel) back
  split at h
  · next sel =>
    obtain ⟨load, rfl, back⟩ := decodeZstdValueLane_encode (fun raw => limit.summaries _ raw sel) h
    exact put_back (map_of_mapM (fun _ _ => summaryOf_eq) sel) back
  · obtain ⟨mixed, wrote, h⟩ := bind_eq_ok.mp h
    cases h
    exact bind_ok (a := (values, [])) ((reads_decodeMixed wrote).run) rfl

end Selected

end ShardTelemetry.Metric
