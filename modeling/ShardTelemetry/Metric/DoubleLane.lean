import ShardTelemetry.Metric.Codec

/-!
# The lane of doubles

The bits that the writer has written are those of its bytes up to the padding (`Holds`), and a
reading is described by the bits it consumes (`Scans`).  What `encodeXor` writes after a value is
what `decodeXor` reads after it, with the same window before and after.
-/

namespace ShardTelemetry.Metric

open List Bits Bytes

/-! ## Writing -/

namespace MetricBitWriter

/-- The writer has written these bits; the rest of its last byte is zero. -/
structure Holds (writer : MetricBitWriter) (bits : List Bool) : Prop where
  pos : 0 < writer.used
  le : writer.used ≤ 8
  eq : ofBytes writer.bytes = bits ++ replicate (8 - writer.used) false

variable {writer : MetricBitWriter}

theorem holds_new : Holds new [] := ⟨by decide, le_rfl, rfl⟩

/-- A writer whose last byte has room. -/
theorem write_open {bytes : List UInt8} {used : Nat} (room : used < 8)
    (eq : ofBytes bytes = bits ++ replicate (8 - used) false) (value) :
    Holds ⟨if value then bytes.modify (bytes.length - 1) (· ||| (1 <<< UInt8.ofNat (7 - used)))
      else bytes, used + 1⟩ (bits ++ [value]) := by
  have padding : replicate (8 - used) false = false :: replicate (8 - (used + 1)) false := by
    rw [← replicate_succ]
    congr 1
    omega
  refine ⟨Nat.succ_pos used, room, ?_⟩
  cases value with
  | false => simpa [padding] using eq
  | true =>
    -- the bit after those that are written is in the last byte
    have length := congrArg length eq
    rw [length_ofBytes, length_append, length_replicate] at length
    have last : bits.length / 8 = bytes.length - 1 := by omega
    have place : bits.length % 8 = used := by omega
    have set := ofBytes_modify bytes bits.length
    rw [last, place] at set
    simp only [if_true]
    rw [set, eq, padding, set_append_right _ _ le_rfl, Nat.sub_self]
    simp

theorem Holds.writeBit (h : writer.Holds bits) (value) :
    (writer.writeBit value).Holds (bits ++ [value]) := by
  unfold MetricBitWriter.writeBit
  by_cases full : writer.used = 8
  · rw [if_pos full]
    apply write_open (show 0 < 8 by decide)
    rw [ofBytes_append, h.eq, full]
    simp only [Nat.sub_self, replicate_zero, append_nil]
    rfl
  · rw [if_neg full]
    have := h.le
    exact write_open (by omega) h.eq value

theorem Holds.writeBits (h : writer.Holds bits) (value) (count) :
    (writer.writeBits value count).Holds (bits ++ ofWord value count) := by
  induction count generalizing writer bits with
  | zero => simpa [MetricBitWriter.writeBits, ofWord] using h
  | succ count ih =>
    have next := ih (h.writeBit (value.getLsbD count))
    rwa [append_assoc] at next

end MetricBitWriter

/-! ## Reading -/

namespace MetricBitReader

variable {α β : Type}

/-- The reading consumes exactly these bits and returns this value, whatever follows. -/
def Scans (reading : Reading α) (bits : List Bool) (a : α) : Prop :=
  ∀ (reader : MetricBitReader) (rest : List Bool),
    (ofBytes reader.bytes).drop reader.bit = bits ++ rest →
      reading reader = .ok (a, { reader with bit := reader.bit + bits.length })

theorem Scans.pure (a : α) : Scans (pure a) [] a := fun _ _ _ => rfl

variable {next : α → Reading β}

theorem Scans.bind {bits bits' : List Bool} (h : Scans reading bits a)
    (h' : Scans (next a) bits' b) : Scans (reading >>= next) (bits ++ bits') b := by
  intro reader rest left
  show (reading reader >>= fun p => next p.1 p.2) = _
  rw [append_assoc] at left
  rw [h reader _ left]
  have after : (ofBytes reader.bytes).drop (reader.bit + bits.length) = bits' ++ rest := by
    rw [← drop_drop, left, drop_left]
  rw [length_append, ← Nat.add_assoc]
  exact h' _ rest after

/-- The last step of a reading consumes nothing. -/
theorem Scans.last {bits : List Bool} (h : Scans reading bits a)
    (h' : Scans (next a) [] b) : Scans (reading >>= next) bits b := by
  have scans := h.bind h'
  rwa [append_nil] at scans

theorem scans_readBit (bit) : Scans readBit [bit] bit := by
  intro reader rest left
  have found : (ofBytes reader.bytes)[reader.bit]? = some bit := by
    have := congrArg (·[0]?) left
    simpa using this
  have lt : reader.bit < 8 * reader.bytes.length := by
    rw [← length_ofBytes]
    exact (List.getElem?_eq_some_iff.mp found).1
  rw [getElem?_ofBytes, Option.map_eq_some_iff] at found
  obtain ⟨byte, at', rfl⟩ := found
  rw [readBit, if_neg (by omega), getD_eq_getElem?_getD, at']
  rfl

theorem scans_readBitsFrom (bits) (value) :
    Scans (readBitsFrom value bits.length) bits (bits.foldl BitVec.shiftConcat value) := by
  induction bits generalizing value with
  | nil => exact Scans.pure value
  | cons bit bits ih => exact (scans_readBit bit).bind (ih (value.shiftConcat bit))

theorem scans_readBits {count : Nat} (h : word.toNat < 2 ^ count) :
    Scans (readBits count) (ofWord word count) word := by
  have scans := scans_readBitsFrom (ofWord word count) 0
  rw [length_ofWord] at scans
  have spelled : (ofWord word count).foldl BitVec.shiftConcat 0 = word := toWord_ofWord h
  rwa [spelled] at scans

end MetricBitReader

/-! ## Windows -/

section Window

variable {xor : BitVec 64}

/-- The window leaves bits between its zeros. -/
def Window.Ok (window : Window) : Prop := window.1 + window.2 < 64

/-- The bits outside of the window are zero. -/
structure Window.Covers (window : Window) (xor : BitVec 64) : Prop where
  leading : xor.toNat < 2 ^ (64 - window.1)
  trailing : ∀ i < window.2, xor.getLsbD i = false

/-- The bits in the window are as many as are written. -/
theorem Window.Covers.fits {window : Window} (ok : window.Ok) (h : window.Covers xor) :
    (xor >>> window.2).toNat < 2 ^ (64 - window.1 - window.2) := by
  rw [BitVec.toNat_ushiftRight, Nat.shiftRight_eq_div_pow]
  apply Nat.div_lt_of_lt_mul
  rw [← Nat.pow_add]
  have sum : window.2 + (64 - window.1 - window.2) = 64 - window.1 := by
    have : window.1 + window.2 < 64 := ok
    omega
  rw [sum]
  exact h.leading

/-- Nothing is lost outside of the window. -/
theorem Window.Covers.shift {window : Window} (h : window.Covers xor) :
    (xor >>> window.2) <<< window.2 = xor := by
  ext i lt
  rw [← BitVec.getLsbD_eq_getElem, ← BitVec.getLsbD_eq_getElem, BitVec.getLsbD_shiftLeft,
    BitVec.getLsbD_ushiftRight]
  rcases Nat.lt_or_ge i window.2 with low | high
  · rw [h.trailing i low]
    simp [low]
  · simp [lt, high]

/-- A window with fewer zeros covers what it is compared with. -/
theorem Window.covers_of_le {window : Window} (hleading : window.1 ≤ min xor.clz.toNat 31)
    (htrailing : window.2 ≤ xor.ctz.toNat) : window.Covers xor where
  leading := by
    refine xor.toNat_lt_two_pow_sub_clz.trans_le (Nat.pow_le_pow_right (by decide) ?_)
    omega
  trailing i lt := BitVec.getLsbD_false_of_lt_ctz (lt.trans_le htrailing)

theorem Window.ok_of_ne_zero (h : xor ≠ 0) : Window.Ok (min xor.clz.toNat 31, xor.ctz.toNat) := by
  have low := BitVec.two_pow_ctz_le_toNat_of_ne_zero h
  have high := xor.toNat_lt_two_pow_sub_clz
  have lt : xor.ctz.toNat < 64 - xor.clz.toNat :=
    (Nat.pow_lt_pow_iff_right (by decide)).mp (low.trans_lt high)
  show min xor.clz.toNat 31 + xor.ctz.toNat < 64
  omega

end Window

/-! ## Values -/

section Values

open MetricBitReader

/-- A window that was written is read back. -/
theorem scans_decodeWindow (hleading : leading < 32) (pos : 0 < significant)
    (sum : leading + significant ≤ 64) :
    Scans (decodeWindow window)
      ([true] ++ (ofWord (BitVec.ofNat 64 leading) 5 ++
        ofWord (BitVec.ofNat 64 significant &&& 0x3f) 6))
      (leading, 64 - leading - significant) := by
  have low : (BitVec.ofNat 64 leading).toNat = leading := by
    rw [BitVec.toNat_ofNat]
    omega
  have masked : (BitVec.ofNat 64 significant &&& 0x3f).toNat = significant % 64 := by
    rw [BitVec.toNat_and, BitVec.toNat_ofNat, Nat.mod_eq_of_lt (by omega)]
    exact Nat.and_two_pow_sub_one_eq_mod significant 6
  have dec : (if BitVec.ofNat 64 significant &&& 0x3f = 0 then 64
      else (BitVec.ofNat 64 significant &&& 0x3f).toNat) = significant := by
    split
    · next zero =>
      have := congrArg BitVec.toNat zero
      rw [masked] at this
      simp at this
      omega
    · next nonzero =>
      rw [masked]
      have : significant % 64 ≠ 0 := by
        intro zero
        apply nonzero
        apply BitVec.eq_of_toNat_eq
        rw [masked, zero]
        rfl
      omega
  refine (scans_readBit true).bind ?_
  refine (scans_readBits (show _ < 2 ^ 5 by omega)).bind ?_
  refine (scans_readBits (show _ < 2 ^ 6 by omega)).last ?_
  dsimp only
  rw [dec, low, if_neg (by omega)]
  exact Scans.pure _

/-- The window is read, and then what it shows of the exclusive or. -/
theorem scans_decodeXor (prev) {xor : BitVec 64} (ok : shown.Ok)
    (covers : shown.Covers xor) (h : Scans (decodeWindow window) bits shown) :
    Scans (decodeXor prev window)
      ([true] ++ (bits ++ ofWord (xor >>> shown.2) (64 - shown.1 - shown.2)))
      (prev ^^^ xor, some shown) := by
  refine (scans_readBit true).bind ?_
  refine h.bind ?_
  dsimp only
  rw [if_neg (Nat.not_le.mpr ok)]
  refine (scans_readBits (covers.fits ok)).last ?_
  rw [covers.shift]
  exact Scans.pure _

/-- What is written for a value is read as that value, with the same window after it. -/
theorem encodeXor_scans (prev value) (h : writer.Holds bits) (ok : ∀ w ∈ window, Window.Ok w) :
    ∃ wrote, (encodeXor writer prev window value).1.Holds (bits ++ wrote) ∧
      Scans (decodeXor prev window) wrote (value, (encodeXor writer prev window value).2) ∧
      ∀ w ∈ (encodeXor writer prev window value).2, Window.Ok w := by
  have back : prev ^^^ (value ^^^ prev) = value := by
    rw [BitVec.xor_comm value, ← BitVec.xor_assoc, BitVec.xor_self, BitVec.zero_xor]
  unfold encodeXor
  dsimp only
  generalize value ^^^ prev = xor at back ⊢
  split
  · next zero =>
    refine ⟨[false], h.writeBit false, ?_, ok⟩
    have same : prev = value := by simpa [zero] using back
    rw [← same]
    exact (scans_readBit false).last (Scans.pure _)
  · next nonzero =>
    split
    · next windowLeading windowTrailing eq =>
      -- the window before covers this value as well
      obtain ⟨rfl, room⟩ := Option.filter_eq_some_iff.mp eq
      rw [Bool.and_eq_true, decide_eq_true_eq, decide_eq_true_eq] at room
      have covers : Window.Covers (windowLeading, windowTrailing) xor :=
        Window.covers_of_le room.1 room.2
      have shown := ok _ rfl
      have reused : Scans (decodeWindow (some (windowLeading, windowTrailing))) [false]
          (windowLeading, windowTrailing) := (scans_readBit false).last (Scans.pure _)
      have scans := scans_decodeXor prev shown covers reused
      rw [back] at scans
      refine ⟨_, ?_, scans, ok⟩
      have wrote := ((h.writeBit true).writeBit false).writeBits (xor >>> windowTrailing)
        (64 - windowLeading - windowTrailing)
      simpa [append_assoc] using wrote
    · -- a new window is written before the value
      have shown := Window.ok_of_ne_zero nonzero
      have covers : Window.Covers (min xor.clz.toNat 31, xor.ctz.toNat) xor :=
        Window.covers_of_le le_rfl le_rfl
      have sum : min xor.clz.toNat 31 + xor.ctz.toNat < 64 := shown
      have fresh : Scans (decodeWindow window) _ (min xor.clz.toNat 31, 64 - min xor.clz.toNat 31 -
          (64 - min xor.clz.toNat 31 - xor.ctz.toNat)) :=
        scans_decodeWindow (by omega) (by omega) (by omega)
      rw [show 64 - min xor.clz.toNat 31 - (64 - min xor.clz.toNat 31 - xor.ctz.toNat) =
        xor.ctz.toNat by omega] at fresh
      have scans := scans_decodeXor prev shown covers fresh
      rw [back] at scans
      refine ⟨_, ?_, scans, ?_⟩
      · have wrote := ((((h.writeBit true).writeBit true).writeBits
          (BitVec.ofNat 64 (min xor.clz.toNat 31)) 5).writeBits
          (BitVec.ofNat 64 (64 - min xor.clz.toNat 31 - xor.ctz.toNat) &&& 0x3f) 6).writeBits
          (xor >>> xor.ctz.toNat) (64 - min xor.clz.toNat 31 - xor.ctz.toNat)
        simpa [append_assoc] using wrote
      · intro w mem
        cases mem
        exact shown

theorem encodeXors_scans (prev) (h : writer.Holds bits) (ok : ∀ w ∈ window, Window.Ok w) (values) :
    ∃ wrote, (encodeXors writer prev window values).Holds (bits ++ wrote) ∧
      Scans (decodeXors values.length prev window) wrote values := by
  induction values generalizing writer bits prev window with
  | nil => exact ⟨[], by simpa [encodeXors] using h, Scans.pure []⟩
  | cons value rest ih =>
    obtain ⟨first, holds, scans, ok'⟩ := encodeXor_scans prev value h ok
    obtain ⟨later, holds', scans'⟩ := ih value holds ok'
    refine ⟨first ++ later, ?_, ?_⟩
    · rwa [← append_assoc]
    · exact scans.bind (scans'.last (Scans.pure _))

/-- The lane of doubles is read back, bit for bit. -/
theorem decodeDoubleValueLane_encode (h : encodeDoubleValueLane codec values = .ok enc) :
    ∃ load, enc = codec :: load ∧ decodeDoubleValueLane load values.length = .ok values := by
  cases values with
  | nil => cases h
  | cons first rest =>
    cases h
    refine ⟨toLE 8 first.toNat ++ (encodeXors .new first none rest).bytes, rfl, ?_⟩
    have ok : ∀ w ∈ (none : Option Window), Window.Ok w := by simp
    obtain ⟨wrote, holds, scans⟩ := encodeXors_scans first MetricBitWriter.holds_new ok rest
    generalize (encodeXors .new first none rest) = writer at holds
    rw [nil_append] at holds
    have length := congrArg length holds.eq
    rw [length_ofBytes, length_append, length_replicate] at length
    have pos := holds.pos
    have le := holds.le
    have word : BitVec.ofNat 64 (ofLE ((toLE 8 first.toNat ++ writer.bytes).take 8)) =
        first := by
      rw [take_left' (length_toLE 8 _), ofLE_toLE first.isLt, BitVec.ofNat_toNat,
        BitVec.setWidth_eq]
    have rest' : (toLE 8 first.toNat ++ writer.bytes).drop 8 = writer.bytes :=
      drop_left' (length_toLE 8 _)
    have run := scans ⟨writer.bytes, 0⟩ (replicate (8 - writer.used) false) holds.eq
    have finished : MetricBitReader.finish ⟨writer.bytes, wrote.length⟩ = .ok () := by
      apply bind_eq_ok.mpr
      have short : writer.bytes.length * 8 - wrote.length < 8 := by omega
      refine ⟨(), ensure_eq_ok.mpr (decide_eq_true short), ensure_eq_ok.mpr ?_⟩
      rw [holds.eq, drop_left]
      simp
    refine ensure_bind_ok (by simp [length_toLE]) ?_
    refine bind_ok (a := (rest, ⟨writer.bytes, wrote.length⟩)) ?_ ?_
    · rw [word, rest', length_cons, Nat.add_sub_cancel, run]
      simp
    · refine bind_ok finished ?_
      rw [word]
      rfl

end Values

end ShardTelemetry.Metric
