import Mathlib.Data.List.Chain
import ShardTelemetry.Metric.DoubleLane

/-!
# Prometheus XOR chunks

The chunks of a streamed Remote Read, and the Prometheus algorithm that reads them.  The windows of
the values are those of the metric chunks, so that the encoder is followed through the bits that it
has written (`asMetric`) and the reader through those that it consumes.
-/

namespace ShardTelemetry.PrometheusXor

open ShardTelemetry.Metric List MetricBitReader Bits Varint Bytes

/-- A timestamp, as a signed number, and the bits of a double. -/
abbrev Sample : Type := BitVec 64 × BitVec 64

/-! ## Writing -/

structure BitWriter where
  bytes : List UInt8
  /-- How many bits of the last byte are free; between two calls they are fewer than eight. -/
  available : Fin 8

namespace BitWriter

def new : BitWriter := ⟨[0, 0], 0⟩

def writeBit (writer : BitWriter) (value : Bool) : BitWriter :=
  let bytes := if writer.available = 0 then writer.bytes ++ [0] else writer.bytes
  -- seven bits are free after the first bit of a new byte
  let available := writer.available - 1
  ⟨if value then bytes.modify (bytes.length - 1) (· ||| (1 <<< UInt8.ofNat available))
    else bytes, available⟩

def writeByte (writer : BitWriter) (value : UInt8) : BitWriter :=
  if writer.available = 0 then ⟨writer.bytes ++ [value], 0⟩
  else
    let bytes := writer.bytes.modify (writer.bytes.length - 1)
      (· ||| (value >>> UInt8.ofNat (8 - writer.available)))
    ⟨bytes ++ [value <<< UInt8.ofNat writer.available], writer.available⟩

def writeBits (writer : BitWriter) (value : BitVec 64) : Nat → BitWriter
  | 0 => writer
  | shift + 1 => (writer.writeBit (value.getLsbD shift)).writeBits value shift

def writeUvarint (writer : BitWriter) (value : BitVec 64) : BitWriter :=
  (write 64 value.toNat).foldl writeByte writer

def writeVarint (writer : BitWriter) (value : BitVec 64) : BitWriter :=
  let encoded := value <<< 1
  writer.writeUvarint (if value.toInt < 0 then ~~~encoded else encoded)

end BitWriter

def fitsPrometheusSignedRange (value : BitVec 64) (bits : Nat) : Bool :=
  let half : Int := 2 ^ (bits - 1)
  value.toInt ≥ -(half - 1) && value.toInt ≤ half

def writeTimestampDelta (writer : BitWriter) (deltaOfDelta : BitVec 64) : BitWriter :=
  if deltaOfDelta = 0 then writer.writeBit false
  else if fitsPrometheusSignedRange deltaOfDelta 14
    then (writer.writeBits 0b10 2).writeBits deltaOfDelta 14
  else if fitsPrometheusSignedRange deltaOfDelta 17
    then (writer.writeBits 0b110 3).writeBits deltaOfDelta 17
  else if fitsPrometheusSignedRange deltaOfDelta 20
    then (writer.writeBits 0b1110 4).writeBits deltaOfDelta 20
  else (writer.writeBits 0b1111 4).writeBits deltaOfDelta 64

/-- There is no window while `leading` is `u8::MAX`. -/
def writeValueDelta (writer : BitWriter) (next current : BitVec 64) (window : Option Window) :
    BitWriter × Option Window :=
  let delta := next ^^^ current
  if delta = 0 then (writer.writeBit false, window)
  else
    let writer := writer.writeBit true
    let nextLeading := min delta.clz.toNat 31
    let nextTrailing := delta.ctz.toNat
    match window.filter fun window => window.1 ≤ nextLeading && window.2 ≤ nextTrailing with
    | some (leading, trailing) =>
      ((writer.writeBit false).writeBits (delta >>> trailing) (64 - leading - trailing), window)
    | none =>
      let significant := 64 - nextLeading - nextTrailing
      ((((writer.writeBit true).writeBits (BitVec.ofNat 64 nextLeading) 5).writeBits
        (BitVec.ofNat 64 significant) 6).writeBits (delta >>> nextTrailing) significant,
        some (nextLeading, nextTrailing))

/-- What a sample is written and read against. -/
structure Previous where
  timestamp : BitVec 64
  timestampDelta : BitVec 64
  value : BitVec 64
  window : Option Window

def Previous.start : Previous := ⟨BitVec.ofInt 64 (-2 ^ 63), 0, 0, none⟩

def nextDelta (next timestamp : BitVec 64) : TelemetryResult (BitVec 64) :=
  let delta := next.toInt - timestamp.toInt
  if 0 ≤ delta ∧ delta < 2 ^ 63 then .ok (BitVec.ofInt 64 delta)
  else .error (.invalidMetricSample "Prometheus XOR timestamp delta is negative")

/-- Write the sample of an ordinal. -/
def encodeSample (writer : BitWriter) (prev : Previous) (next : Sample) :
    Nat → TelemetryResult (BitWriter × Previous)
  | 0 => .ok ((writer.writeVarint next.1).writeBits next.2 64,
      { prev with timestamp := next.1, value := next.2 })
  | 1 => do
    let delta ← nextDelta next.1 prev.timestamp
    let (writer, window) :=
      writeValueDelta (writer.writeUvarint delta) next.2 prev.value prev.window
    return (writer, ⟨next.1, delta, next.2, window⟩)
  | _ + 2 => do
    let delta ← nextDelta next.1 prev.timestamp
    let writer := writeTimestampDelta writer (delta - prev.timestampDelta)
    let (writer, window) := writeValueDelta writer next.2 prev.value prev.window
    return (writer, ⟨next.1, delta, next.2, window⟩)

/-- The loop over the samples from an ordinal on. -/
def encodeSamples (writer : BitWriter) (prev : Previous) :
    Nat → List Sample → TelemetryResult BitWriter
  | _, [] => .ok writer
  | ordinal, next :: rest => do
    let (writer, prev) ← encodeSample writer prev next ordinal
    encodeSamples writer prev (ordinal + 1) rest

def encodeXorChunk (samples : List Sample) : TelemetryResult (List UInt8) := do
  ensure (samples ≠ [] && samples.length ≤ 65535)
    (.invalidMetricSample "Prometheus XOR chunks require 1..=65535 samples")
  ensure (samples.IsChain fun left right => left.1.toInt ≤ right.1.toInt)
    (.invalidMetricSample "Prometheus XOR chunk timestamps must be sorted")
  let writer ← encodeSamples .new .start 0 samples
  return toBE 2 samples.length ++ writer.bytes.drop 2

/-! ## Reading -/

/-- The groups of a number of variable length; there are at most ten. -/
def readUvarintFrom : Nat → Nat → Nat → Reading Nat
  | 0, _, _ => throw (.invalidMetricSample "varint overflow")
  | steps + 1, shift, value => do
    let byte := UInt8.ofNat (← readBits 8).toNat
    let value := value ||| ((byte &&& 0x7f).toNat <<< shift) % 2 ^ 64
    if byte &&& 0x80 = 0 then return value else readUvarintFrom steps (shift + 7) value

def readUvarint : Reading (BitVec 64) := do
  return BitVec.ofNat 64 (← readUvarintFrom 10 0 0)

def readVarint : Reading (BitVec 64) := do
  let encoded ← readUvarint
  return if encoded &&& 1 = 0 then encoded >>> 1 else ~~~(encoded >>> 1)

/-- A number of a class; what is above half of its range is negative. -/
def readSigned (bits : Nat) : Reading (BitVec 64) := do
  let value ← readBits bits
  return if 2 ^ (bits - 1) < value.toNat then value - BitVec.ofNat 64 (2 ^ bits) else value

def readTimestampDelta : Reading (BitVec 64) := do
  if !(← readBit) then return 0
  else if !(← readBit) then readSigned 14
  else if !(← readBit) then readSigned 17
  else if !(← readBit) then readSigned 20
  else readBits 64

/-- Read the sample of an ordinal.  The value is read as in a metric chunk, which also refuses a
window that is used before the first one. -/
def decodeSample (prev : Previous) : Nat → Reading Previous
  | 0 => do
    let timestamp ← readVarint
    let value ← readBits 64
    return { prev with timestamp, value }
  | 1 => do
    let delta ← readUvarint
    let (value, window) ← decodeXor prev.value prev.window
    return ⟨prev.timestamp + delta, delta, value, window⟩
  | _ + 2 => do
    let delta := prev.timestampDelta + (← readTimestampDelta)
    let (value, window) ← decodeXor prev.value prev.window
    return ⟨prev.timestamp + delta, delta, value, window⟩

def decodeSamples (prev : Previous) : Nat → Nat → Reading (List Sample)
  | _, 0 => pure []
  | ordinal, count + 1 => do
    let prev ← decodeSample prev ordinal
    let rest ← decodeSamples prev (ordinal + 1) count
    return (prev.timestamp, prev.value) :: rest

/-- The samples of a chunk. -/
def decodeXorChunk (encoded : List UInt8) : TelemetryResult (List Sample) := do
  let (samples, _) ← decodeSamples .start 0 (ofBE (encoded.take 2)) ⟨encoded.drop 2, 0⟩
  return samples

/-! ## Bits that are written -/

/-- The writer of the metric chunks that has written the same bits. -/
def BitWriter.asMetric (writer : BitWriter) : MetricBitWriter :=
  ⟨writer.bytes, 8 - writer.available⟩

section Writing

variable {writer : BitWriter}

@[simp] theorem asMetric_writeBit (writer : BitWriter) (value : Bool) :
    (writer.writeBit value).asMetric = writer.asMetric.writeBit value := by
  obtain ⟨bytes, _ | _ | _ | _ | _ | _ | _ | _ | available, lt⟩ := writer
  all_goals first | rfl | omega

@[simp] theorem asMetric_writeBits (writer : BitWriter) (value : BitVec 64) (count : Nat) :
    (writer.writeBits value count).asMetric = writer.asMetric.writeBits value count := by
  induction count generalizing writer with
  | zero => rfl
  | succ count ih => rw [BitWriter.writeBits, ih, asMetric_writeBit, MetricBitWriter.writeBits]

/-- Whole bytes leave no free bits. -/
theorem available_eq_zero (h : writer.asMetric.Holds bits) (whole : 8 ∣ bits.length) :
    writer.available = 0 := by
  have length := congrArg length h.eq
  simp [BitWriter.asMetric] at length
  omega

/-- The values are written as those of a metric chunk; a significant length needs no mask. -/
theorem asMetric_writeValueDelta (writer : BitWriter) (next current : BitVec 64)
    (window : Option Window) :
    (writeValueDelta writer next current window).map BitWriter.asMetric id =
      encodeXor writer.asMetric current window next := by
  have mask (writer : MetricBitWriter) (value : BitVec 64) :
      writer.writeBits (value &&& 0x3f#64) 6 = writer.writeBits value 6 := by
    simp [MetricBitWriter.writeBits]
  unfold writeValueDelta encodeXor
  dsimp only
  split
  · simp
  · generalize window.filter _ = found
    rcases found with _ | ⟨leading, trailing⟩
    · simp [mask]
    · simp

theorem holds_foldl_writeByte (h : writer.asMetric.Holds bits) (whole : 8 ∣ bits.length)
    (bytes : List UInt8) :
    (bytes.foldl BitWriter.writeByte writer).asMetric.Holds (bits ++ ofBytes bytes) := by
  induction bytes generalizing writer bits with
  | nil => simpa using h
  | cons byte bytes ih =>
    have aligned := available_eq_zero h whole
    have eq : writer.writeByte byte = ⟨writer.bytes ++ [byte], 0⟩ := if_pos aligned
    rw [foldl_cons, eq, ofBytes_cons, ← append_assoc]
    refine ih ⟨Nat.succ_pos 7, le_rfl, ?_⟩ (by simpa using whole)
    have written := h.eq
    simp only [BitWriter.asMetric, aligned] at written
    simp [BitWriter.asMetric, ofBytes_append, written]

end Writing

/-! ## Bits that are read -/

section Reading

theorem scans_readByte (byte) : Scans (readBits 8) (ofByte byte) (byte.toBitVec.setWidth 64) := by
  have same : ofByte byte = ofWord (byte.toBitVec.setWidth 64) 8 := by
    simp [ofByte, ofWord, range_succ, BitVec.getMsbD]
  rw [same]
  apply scans_readBits
  have := byte.toNat_lt
  simp
  omega

theorem scans_readUvarintFrom {steps shift value number : Nat} {bytes : List UInt8}
    (h : Reads (readFrom 64 truncated long none steps shift value) bytes number) :
    Scans (readUvarintFrom steps shift value) (ofBytes bytes) number := by
  induction steps generalizing shift value bytes with
  | zero => cases h []
  | succ steps ih =>
    cases bytes with
    | nil => cases h []
    | cons byte bytes =>
      refine (scans_readByte byte).bind ?_
      have same : UInt8.ofNat (byte.toBitVec.setWidth 64).toNat = byte := by
        apply UInt8.toNat.inj
        simp
      rw [same]
      have step : Reads (if byte &&& 0x80 = 0 then pure _
        else readFrom 64 truncated long none steps (shift + 7) _) bytes number := h
      dsimp only
      split
      · next last =>
        rw [if_pos last] at step
        cases bytes with
        | cons => cases step []
        | nil =>
          cases step []
          exact Scans.pure _
      · next more =>
        rw [if_neg more] at step
        exact ih step

theorem scans_readUvarint (value) : Scans readUvarint (ofBytes (write 64 value.toNat)) value := by
  have reads : Reads (read 64 () () none) _ _ := reads_read value.isLt
  refine (scans_readUvarintFrom reads).last ?_
  rw [BitVec.ofNat_toNat, BitVec.setWidth_eq]
  exact Scans.pure _

/-- The sign is folded into the lowest bit and taken out of it. -/
theorem scans_readVarint (value : BitVec 64) : Scans readVarint (ofBytes (write 64
    (if value.toInt < 0 then ~~~(value <<< 1) else value <<< 1).toNat)) value := by
  refine (scans_readUvarint _).last ?_
  have even (encoded : BitVec 64) : encoded &&& 1 = 0 ↔ encoded.toNat % 2 = 0 := by
    rw [← BitVec.toNat_inj, BitVec.toNat_and]
    simp [Nat.and_one_is_mod]
  have sign : value.toInt < 0 ↔ 2 ^ 63 ≤ value.toNat := by
    rw [BitVec.toInt_eq_toNat_cond]
    split <;> omega
  convert Scans.pure value using 2
  apply BitVec.eq_of_toNat_eq
  by_cases negative : value.toInt < 0
  · have := sign.mp negative
    rw [if_pos negative, if_neg (by rw [even]; simp [Nat.shiftLeft_eq]; omega)]
    simp [Nat.shiftLeft_eq, Nat.shiftRight_eq_div_pow]
    omega
  · have := mt sign.mpr negative
    rw [if_neg negative, if_pos (by rw [even]; simp [Nat.shiftLeft_eq])]
    simp [Nat.shiftLeft_eq, Nat.shiftRight_eq_div_pow]
    omega

theorem scans_readSigned {count : Nat} (known : count = 14 ∨ count = 17 ∨ count = 20)
    (h : fitsPrometheusSignedRange value count) :
    Scans (readSigned count) (ofWord value count) value := by
  have scans := scans_readBitsFrom (ofWord value count) 0
  rw [length_ofWord] at scans
  refine scans.last ?_
  convert Scans.pure value using 2
  apply BitVec.eq_of_toNat_eq
  have low := toNat_foldl_ofWord value 0 count
  generalize (ofWord value count).foldl BitVec.shiftConcat 0 = word at low ⊢
  simp only [fitsPrometheusSignedRange, BitVec.toInt_eq_toNat_cond, Bool.and_eq_true,
    decide_eq_true_eq] at h
  have := value.isLt
  rcases known with rfl | rfl | rfl
  all_goals
    simp at low h
    split
    · rw [BitVec.toNat_sub]
      simp
      omega
    · omega

/-- The bits before the number tell its class. -/
theorem scans_readTimestampDelta (h : writer.asMetric.Holds bits) (deltaOfDelta : BitVec 64) :
    ∃ wrote, (writeTimestampDelta writer deltaOfDelta).asMetric.Holds (bits ++ wrote) ∧
      Scans readTimestampDelta wrote deltaOfDelta := by
  have holds (word : BitVec 64) (control count : Nat) :
      ((writer.writeBits word control).writeBits deltaOfDelta count).asMetric.Holds
        (bits ++ (ofWord word control ++ ofWord deltaOfDelta count)) := by
    have wrote := (h.writeBits word control).writeBits deltaOfDelta count
    simpa using wrote
  have one {next : Bool → Reading (BitVec 64)} {later : List Bool} (bit : Bool)
      (scans : Scans (next bit) later deltaOfDelta) :
      Scans (readBit >>= next) (bit :: later) deltaOfDelta :=
    (scans_readBit bit).bind scans
  unfold writeTimestampDelta
  split
  · next zero =>
    rw [zero, asMetric_writeBit]
    exact ⟨_, h.writeBit false, (scans_readBit false).last (Scans.pure 0)⟩
  split
  · next fits => exact ⟨_, holds _ _ _, one true (one false (scans_readSigned (by decide) fits))⟩
  split
  · next fits =>
      exact ⟨_, holds _ _ _, one true (one true (one false (scans_readSigned (by decide) fits)))⟩
  split
  · next fits =>
    exact ⟨_, holds _ _ _,
      one true (one true (one true (one false (scans_readSigned (by decide) fits))))⟩
  · exact ⟨_, holds _ _ _,
      one true (one true (one true (one true (scans_readBits deltaOfDelta.isLt))))⟩

theorem scans_decodeXor_write (h : writer.asMetric.Holds bits) (next current)
    (ok : ∀ w ∈ window, Window.Ok w) :
    ∃ wrote, (writeValueDelta writer next current window).1.asMetric.Holds (bits ++ wrote) ∧
      Scans (decodeXor current window) wrote
        (next, (writeValueDelta writer next current window).2) ∧
      ∀ w ∈ (writeValueDelta writer next current window).2, Window.Ok w := by
  have wrote := encodeXor_scans current next h ok
  rwa [← asMetric_writeValueDelta] at wrote

end Reading

/-! ## Chunks -/

section Chunks

/-- The samples that can follow a timestamp. -/
def Follows (left right : BitVec 64) : Prop :=
  left.toInt ≤ right.toInt ∧ right.toInt - left.toInt < 2 ^ 63

theorem nextDelta_eq_ok {next : BitVec 64} (h : Follows timestamp next) :
    nextDelta next timestamp = .ok (next - timestamp) := by
  unfold nextDelta
  rw [if_pos ⟨by have := h.1; omega, h.2⟩]
  congr 1
  apply BitVec.eq_of_toInt_eq
  rw [BitVec.toInt_sub, BitVec.toInt_ofInt]

variable {prev : Previous}

/-- What is written for a sample is read as that sample.  The first two start with whole bytes. -/
theorem encodeSample_scans (next : Sample) (ordinal : Nat) (h : writer.asMetric.Holds bits)
    (whole : ordinal < 2 → 8 ∣ bits.length) (ok : ∀ w ∈ prev.window, Window.Ok w)
    (follows : ordinal ≠ 0 → Follows prev.timestamp next.1) :
    ∃ writer' prev' wrote, encodeSample writer prev next ordinal = .ok (writer', prev') ∧
      writer'.asMetric.Holds (bits ++ wrote) ∧ Scans (decodeSample prev ordinal) wrote prev' ∧
      (ordinal = 0 → 8 ∣ wrote.length) ∧ (∀ w ∈ prev'.window, Window.Ok w) ∧
      (prev'.timestamp, prev'.value) = next := by
  have sum (left right : BitVec 64) : left + (right - left) = right := by
    rw [BitVec.add_comm, BitVec.sub_add_cancel]
  match ordinal with
  | 0 =>
    have holds := holds_foldl_writeByte h (whole (by decide)) (write 64
      (if next.1.toInt < 0 then ~~~(next.1 <<< 1) else next.1 <<< 1).toNat)
    have scans : Scans (decodeSample prev 0) _ { prev with timestamp := next.1, value := next.2 } :=
      (scans_readVarint next.1).bind ((scans_readBits next.2.isLt).last (Scans.pure _))
    refine ⟨_, _, _, rfl, ?_, scans, fun _ => ?_, ok, rfl⟩
    · rw [← append_assoc, asMetric_writeBits]
      exact holds.writeBits next.2 64
    · rw [length_append, length_ofBytes, length_ofWord]
      omega
  | 1 =>
    have holds := holds_foldl_writeByte h (whole (by decide))
      (write 64 (next.1 - prev.timestamp).toNat)
    obtain ⟨wrote, holds, scans, ok⟩ := scans_decodeXor_write holds next.2 prev.value ok
    rw [encodeSample, nextDelta_eq_ok (follows (by decide))]
    rw [append_assoc] at holds
    refine ⟨_, _, _, rfl, holds, ?_, nofun, ok, rfl⟩
    refine (scans_readUvarint (next.1 - prev.timestamp)).bind (scans.last ?_)
    rw [sum]
    exact Scans.pure _
  | ordinal + 2 =>
    obtain ⟨first, holds, scans⟩ :=
      scans_readTimestampDelta h (next.1 - prev.timestamp - prev.timestampDelta)
    obtain ⟨wrote, holds, scans', ok⟩ := scans_decodeXor_write holds next.2 prev.value ok
    rw [encodeSample, nextDelta_eq_ok (follows (by omega))]
    rw [append_assoc] at holds
    refine ⟨_, _, _, rfl, holds, ?_, nofun, ok, rfl⟩
    refine scans.bind (scans'.last ?_)
    rw [sum, sum]
    exact Scans.pure _

theorem encodeSamples_scans (samples) (ordinal) (h : writer.asMetric.Holds bits)
    (whole : ordinal < 2 → 8 ∣ bits.length) (ok : ∀ w ∈ prev.window, Window.Ok w)
    (first : ordinal ≠ 0 → ∀ next ∈ samples.head?, Follows prev.timestamp next.1)
    (spaced : samples.IsChain fun left right => Follows left.1 right.1) :
    ∃ writer' wrote, encodeSamples writer prev ordinal samples = .ok writer' ∧
      writer'.asMetric.Holds (bits ++ wrote) ∧
      Scans (decodeSamples prev ordinal samples.length) wrote samples := by
  induction samples generalizing writer bits prev ordinal with
  | nil => exact ⟨writer, [], rfl, by rwa [append_nil], Scans.pure []⟩
  | cons next rest ih =>
    obtain ⟨writer₁, prev₁, wrote, encoded, holds, scans, bytes, ok, same⟩ :=
      encodeSample_scans next ordinal h whole ok fun later => first later next rfl
    have timestamp : prev₁.timestamp = next.1 := congrArg Prod.fst same
    obtain ⟨writer₂, later, encoded', holds', scans'⟩ := ih (ordinal + 1) holds
      (fun lt => length_append ▸ Nat.dvd_add (whole (by omega)) (bytes (by omega))) ok
      (fun _ following mem => by rw [timestamp]; exact (isChain_cons.mp spaced).1 following mem)
      (isChain_cons.mp spaced).2
    refine ⟨writer₂, wrote ++ later, bind_ok encoded encoded', by rwa [← append_assoc], ?_⟩
    refine scans.bind (scans'.last ?_)
    rw [same]
    exact Scans.pure _

/-- Every chunk of samples in the order of their times is read back, the values bit for bit. -/
theorem decodeXorChunk_encode (samples : List Sample) (nonempty : samples ≠ [])
    (few : samples.length ≤ 65535)
    (spaced : samples.IsChain fun left right => Follows left.1 right.1) :
    ∃ encoded, encodeXorChunk samples = .ok encoded ∧ decodeXorChunk encoded = .ok samples := by
  have start : BitWriter.new.asMetric.Holds (ofBytes [0, 0]) := ⟨by decide, le_rfl, rfl⟩
  have fresh : ∀ w ∈ Previous.start.window, Window.Ok w := by simp [Previous.start]
  obtain ⟨writer, wrote, encoded, holds, scans⟩ :=
    encodeSamples_scans samples 0 start (fun _ => by decide) fresh (absurd rfl) spaced
  have sorted : samples.IsChain fun left right => left.1.toInt ≤ right.1.toInt :=
    spaced.imp fun _ _ => And.left
  refine ⟨_, ensure_bind_ok (by simp [nonempty, few]) (ensure_bind_ok (by simpa using sorted)
    (bind_ok encoded rfl)), ?_⟩
  -- the header is in the place of the two bytes that the writer starts with
  have bits :
      ofBytes (writer.bytes.drop 2) = wrote ++ replicate (8 - writer.asMetric.used) false := by
    have split := holds.eq
    rw [BitWriter.asMetric, ← take_append_drop 2 writer.bytes, ofBytes_append, append_assoc]
      at split
    have length := congrArg length split
    refine append_inj_right split ?_
    simp at length ⊢
    omega
  have run := scans ⟨writer.bytes.drop 2, 0⟩ _ bits
  have count : ofBE (toBE 2 samples.length) = samples.length := ofBE_toBE (by omega)
  rw [decodeXorChunk, take_left' (length_toBE 2 _), drop_left' (length_toBE 2 _), count, run]
  rfl

/-- Three samples, the last of them in another window. -/
theorem decodeXorChunk_encode_sample : ∃ encoded,
    encodeXorChunk [(1000, 0x3ff0000000000000), (2000, 0x4000000000000000),
      (3001, 0x7ff8000000000001)] = .ok encoded ∧
      decodeXorChunk encoded =
        .ok [(1000, 0x3ff0000000000000), (2000, 0x4000000000000000), (3001, 0x7ff8000000000001)] :=
  decodeXorChunk_encode _ (by decide) (by decide) (by simp [Follows])

end Chunks

end ShardTelemetry.PrometheusXor
