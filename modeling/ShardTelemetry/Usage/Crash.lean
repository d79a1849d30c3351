import Mathlib.Logic.Equiv.List
import Mathlib.Tactic.DeriveEncodable
import ShardTelemetry.Usage.Ledger

/-!
# Crashes of the usage ledger

`Keeps` says that the slot of the generation in memory is valid, and `Holds` that also the header of
the other slot, if it passes its checks, is of an older one, so that the generation in memory is
recovered.  A crash while the next generation is written leaves a file that holds the one or the
other, since the payload is synced before its header and the slot of the current generation is not
touched.

A write or a sync may also fail and leave the process running: memory stays as it was, over a file
such as a crash at that point could leave.  If the whole header of the failed generation is in it,
the generation is still there when the next call crashes.
-/

namespace ShardTelemetry.Usage

open List hiding count
open EmbeddedUsageLedger File Bytes PersistedState Encodable

variable {lib : Libraries} {ledger : EmbeddedUsageLedger}

/-! ## The layout -/

/-- What the sizes of a ledger have to do with each other. -/
structure EmbeddedUsageLedger.Sized (ledger : EmbeddedUsageLedger) : Prop where
  fileBytes : ledger.fileBytes = ledger.slotBytes * slotCount
  slotBytes : ledger.slotBytes = headerBytes + ledger.maxRawPayloadBytes
  fingerprint : ledger.configFingerprint.length = 32
  features : ledger.featureIds.length ≤ maxFeatures
  months : ledger.monthlyBuckets ≤ maxMonthlyBuckets

theorem EmbeddedUsageLedger.sized_of_new (h : new lib conf = .ok ledger) : ledger.Sized := by
  obtain ⟨normal, normalized, h⟩ := andThen_eq_ok.mp h
  obtain ⟨_, -, h⟩ := andThen_eq_ok.mp h
  cases h
  unfold EmbeddedUsageLedgerConfig.normalized at normalized
  simp only [andThen_eq_ok, check_eq_ok, decide_eq_true_eq] at normalized
  obtain ⟨-, -, -, features, -, months, -, -, -, -, -, -, normalized⟩ := normalized
  cases normalized
  refine ⟨rfl, rfl, lib.length_blake3 _, ?_, months⟩
  rw [length_insertionSort]
  exact features

variable {header file payload : List UInt8}

/-- Where a region of a slot is. -/
theorem EmbeddedUsageLedger.Sized.inside (sized : ledger.Sized) (hslot : slot < slotCount)
    (h : start + count ≤ ledger.slotBytes) :
    ledger.slotOffset slot + start + count ≤ ledger.fileBytes := by
  rw [sized.fileBytes, slotOffset]
  have : ledger.slotBytes * slot + ledger.slotBytes ≤ ledger.slotBytes * slotCount := by
    exact Nat.mul_le_mul_left _ hslot
  omega

/-- Regions of the two slots do not meet. -/
theorem EmbeddedUsageLedger.slots_disjoint (hslot : slot < slotCount)
    (hother : other < slotCount) (ne : slot ≠ other) (h : start + count ≤ ledger.slotBytes)
    (h' : start' + count' ≤ ledger.slotBytes) :
    ledger.slotOffset slot + start + count ≤ ledger.slotOffset other + start' ∨
      ledger.slotOffset other + start' + count' ≤ ledger.slotOffset slot + start := by
  unfold slotOffset
  unfold slotCount at hslot hother
  obtain ⟨rfl, rfl⟩ | ⟨rfl, rfl⟩ : slot = 0 ∧ other = 1 ∨ slot = 1 ∧ other = 0 := by omega
  · omega
  · omega

theorem LedgerInner.targetSlot_lt (inner : LedgerInner) : inner.targetSlot < slotCount :=
  Nat.mod_lt _ (by decide)

theorem LedgerInner.targetSlot_ne (inner : LedgerInner) : inner.activeSlot ≠ inner.targetSlot := by
  unfold LedgerInner.targetSlot slotCount
  omega

/-- The slot behind the target is the current one. -/
theorem LedgerInner.targetSlot_target {inner : LedgerInner}
    (h : inner.activeSlot < slotCount) (file)
    (state) (gen) :
    LedgerInner.targetSlot ⟨file, state, inner.targetSlot, gen⟩ = inner.activeSlot := by
  unfold LedgerInner.targetSlot slotCount at *
  dsimp only
  omega

/-! ## Headers -/

/-- A field behind another one. -/
theorem slice_append (h : field.length ≤ start) :
    slice (field ++ rest) start stop = slice rest (start - field.length) (stop - field.length) := by
  unfold slice
  rw [drop_append, drop_eq_nil_of_le h, nil_append, Nat.sub_sub_sub_cancel_right h]

/-- The field in front. -/
theorem slice_zero (h : field.length = stop) : slice (field ++ rest) 0 stop = field := by
  subst h
  exact take_left

/-- The fields of a header, by where they start. -/
theorem slices_of_fields {magic ver gen payloadLen rawLen fingerprint payloadCrc crc : List UInt8}
    (codec) (hmagic : magic.length = 8) (hver : ver.length = 2)
    (hgeneration : gen.length = 8) (hpayloadLen : payloadLen.length = 4)
    (hrawLen : rawLen.length = 4) (hfingerprint : fingerprint.length = 32)
    (hpayloadCrc : payloadCrc.length = 4) (hcrc : crc.length = 4)
    (hchecked : checked = magic ++ ver ++ [codec] ++ [0] ++ gen ++ payloadLen ++ rawLen ++
      fingerprint ++ payloadCrc) (hheader : header = checked ++ crc) :
    header.length = 68 ∧ slice header 0 8 = magic ∧ slice header 0 64 = checked ∧
      slice header 64 68 = crc ∧ slice header 8 10 = ver ∧ header.getD 10 0 = codec ∧
      slice header 12 20 = gen ∧ slice header 20 24 = payloadLen ∧
      slice header 24 28 = rawLen ∧ slice header 28 60 = fingerprint ∧
        slice header 60 64 = payloadCrc := by
  have length : checked.length = 64 := by
    rw [hchecked]
    simp only [length_append, length_singleton, hmagic, hver, hgeneration, hpayloadLen,
      hrawLen, hfingerprint, hpayloadCrc]
  have pair : [codec, 0].length = 2 := rfl
  have parts :
      header = magic ++ (ver ++ ([codec, 0] ++ (gen ++ (payloadLen ++ (rawLen ++ (fingerprint ++
      (payloadCrc ++ (crc ++ [])))))))) := by
    simp [hheader, hchecked]
  refine ⟨?_, ?_, hheader ▸ slice_zero length, ?_, ?_, ?_, ?_, ?_, ?_, ?_, ?_⟩
  · rw [hheader, length_append, length, hcrc]
  case refine_5 =>
    rw [parts, getD_eq_getElem?_getD]
    simp [getElem?_append_right, hmagic, hver]
  all_goals
    rw [parts]
    simp (disch := omega) only [slice_append, slice_zero, hmagic, hver, pair, hgeneration,
      hpayloadLen, hrawLen, hfingerprint, hpayloadCrc, Nat.reduceSub]

/-- A written header is read back. -/
theorem encodeHeader_spec {codec : UInt8} (sized : ledger.Sized)
    (h : encodeHeader lib codec gen payloadLen rawLen ledger.configFingerprint crc = .ok header)
    (hgeneration : gen < u64Bound) : header.length = headerBytes ∧
      readHeader lib ledger header = .ok ⟨codec, gen, payloadLen, rawLen, crc.toNat⟩ := by
  unfold encodeHeader at h
  simp only [andThen_eq_ok, check_eq_ok, decide_eq_true_eq] at h
  obtain ⟨_, payloadFits, _, rawFits, h⟩ := h
  cases h
  obtain ⟨length, hmagic, hchecked, hcrc, hver, hcodec, hgen, hpayload, hraw, hfingerprint,
      hpayloadCrc⟩ :=
    slices_of_fields codec (show ledgerMagic.length = 8 from rfl) (length_toLE 2 ledgerVersion)
      (length_toLE 8 gen) (length_toLE 4 payloadLen) (length_toLE 4 rawLen)
      sized.fingerprint (length_toLE 4 crc.toNat) (length_toLE 4 _) rfl rfl
  refine ⟨length, ?_⟩
  unfold readHeader
  have crcFits : ∀ crc : UInt32, ofLE (toLE 4 crc.toNat) = crc.toNat :=
    fun crc => ofLE_toLE (by exact crc.toNat_lt)
  rw [if_neg (not_not.mpr hmagic), hchecked, hcrc, if_neg (not_not.mpr (crcFits _).symm), hver,
    if_neg (not_not.mpr (by decide)), if_neg (not_not.mpr hfingerprint), hcodec, hgen,
      hpayload, hraw,
    hpayloadCrc, crcFits, ofLE_toLE (by exact hgeneration), ofLE_toLE (by exact payloadFits),
    ofLE_toLE (by exact rawFits)]

/-! ## Payloads -/

/-- The facts about a state that can be written. -/
theorem encodeState_spec (h : encodeState lib ledger state = .ok enc) :
    validateState state ledger.featureIds.length ledger.monthlyBuckets = .ok () ∧
      enc.payload.length ≤ ledger.maxRawPayloadBytes ∧ enc.rawLen ≤ ledger.maxRawPayloadBytes ∧
      enc.rawLen = (lib.toVec state).length ∧
        (enc.codec = codecRaw ∧ enc.payload = lib.toVec state ∨
        enc.codec = codecZstd ∧ lib.zstd.compress (lib.toVec state) = .ok enc.payload) := by
  unfold encodeState at h
  simp only [andThen_eq_ok, check_eq_ok, decide_eq_true_eq] at h
  obtain ⟨_, valid, _, rawFits, zip, compress, _, payloadFits, h⟩ := h
  have compress : lib.zstd.compress (lib.toVec state) = .ok zip := by
    cases res : lib.zstd.compress (lib.toVec state) with
    | error error => rw [res] at compress; cases compress
    | ok bytes => rw [res] at compress; cases compress; rfl
  cases h
  refine ⟨valid, payloadFits, rawFits, rfl, ?_⟩
  split
  · exact Or.inr ⟨rfl, compress⟩
  · exact Or.inl ⟨rfl, rfl⟩

theorem bounded_of_validateState (sized : ledger.Sized)
    (h : validateState state ledger.featureIds.length ledger.monthlyBuckets = .ok ()) :
    state.Bounded := by
  unfold validateState at h
  simp only [check_eq_ok, Bool.and_eq_true, decide_eq_true_eq, all_eq_true] at h
  obtain ⟨⟨⟨counts, months⟩, each⟩, -⟩ := h
  refine ⟨counts ▸ sized.features, months.trans sized.months, fun month mem => ?_⟩
  rw [each month mem]
  exact sized.features

/-- A written payload is read back. -/
theorem decodePayload_encodeState (sized : ledger.Sized)
    (h : encodeState lib ledger state = .ok enc) (gen : Nat) :
    decodePayload lib ledger ⟨enc.codec, gen, enc.payload.length, enc.rawLen,
      (lib.crc32c enc.payload).toNat⟩ enc.payload = some state := by
  obtain ⟨valid, -, -, rawLen, stored⟩ := encodeState_spec h
  have unpacked := lib.fromSlice_toVec state (bounded_of_validateState sized valid)
  unfold decodePayload
  obtain ⟨codec, payload⟩ | ⟨codec, compress⟩ := stored
  · rw [codec, rawLen, payload]
    simp [codecRaw, codecZstd, unpacked, valid]
  · have raw := lib.zstd.lossless _ _ _ compress le_rfl
    rw [codec, rawLen]
    simp [raw, unpacked, valid]

/-! ## What a file holds -/

/-- The header of a slot, if it passes its checks. -/
def slotHeader (lib : Libraries) (ledger : EmbeddedUsageLedger) (file : List UInt8) (slot : Nat) :
    Option SlotHeader :=
  (read file (ledger.slotOffset slot) headerBytes).bind fun header =>
    (readHeader lib ledger header).toOption

/-- The file holds the generation in memory. -/
structure Keeps (lib : Libraries) (ledger : EmbeddedUsageLedger) (inner : LedgerInner) : Prop where
  length_eq : inner.file.length = ledger.fileBytes
  activeSlot_lt : inner.activeSlot < slotCount
  valid : readSlot lib ledger inner.file inner.activeSlot =
    .ok (.valid ⟨inner.state, inner.activeSlot, inner.generation⟩)

/-- The file holds the generation in memory, and the other slot could only hold an older one. -/
structure Holds (lib : Libraries) (ledger : EmbeddedUsageLedger) (inner : LedgerInner) : Prop
    extends Keeps lib ledger inner where
  older : ∀ header, slotHeader lib ledger inner.file inner.targetSlot = some header →
    header.generation < inner.generation

/-- A slot without a header of this configuration is not valid. -/
theorem readHeader_ne_valid : readHeader lib ledger header ≠ .error (.valid recovered) := by
  unfold readHeader
  split
  · nofun
  split
  · nofun
  split
  · nofun
  split <;> nofun

/-- The payload that a header of the slot describes. -/
def readPayload (ledger : EmbeddedUsageLedger) (file : List UInt8) (slot : Nat)
    (header : SlotHeader) : Option (List UInt8) :=
  read file (ledger.slotOffset slot + headerBytes) header.payloadLen

/-- A valid slot is its header and a payload that passes the checksum of the header. -/
theorem slotHeader_of_valid (h : readSlot lib ledger file slot = .ok (.valid recovered)) :
    ∃ header payload, slotHeader lib ledger file slot = some header ∧
      readPayload ledger file slot header = some payload ∧
      (lib.crc32c payload).toNat = header.payloadCrc ∧ recovered.slot = slot ∧
      recovered.generation = header.generation := by
  obtain ⟨bytes, read, h⟩ := andThen_eq_ok.mp h
  have read := orElse_eq_ok.mp read
  cases parsed : readHeader lib ledger bytes with
  | error other =>
    rw [parsed] at h
    cases h
    exact absurd parsed readHeader_ne_valid
  | ok header =>
    rw [parsed] at h
    dsimp only at h
    split at h
    · cases h
    split at h
    · cases h
    obtain ⟨payload, readBack, h⟩ := andThen_eq_ok.mp h
    split at h
    · next decoded =>
      cases h
      refine ⟨header, payload, ?_, orElse_eq_ok.mp readBack, ?_, rfl, rfl⟩
      · unfold slotHeader
        rw [read, Option.bind_some, parsed]
        rfl
      · unfold decodePayload at decoded
        by_contra crc
        simp [crc] at decoded
    · cases h

/-- What is read of a slot depends on its header and the payload that the header describes. -/
theorem readSlot_eq_of_header {header : SlotHeader}
    (h : slotHeader lib ledger file slot = some header)
    (h' : slotHeader lib ledger file' slot = some header)
    (same : readPayload ledger file slot header = readPayload ledger file' slot header) :
    readSlot lib ledger file slot = readSlot lib ledger file' slot := by
  have parsed : ∀ {file}, slotHeader lib ledger file slot = some header →
      ∃ bytes, readExact file (ledger.slotOffset slot) headerBytes = .ok bytes ∧
        readHeader lib ledger bytes = .ok header := by
    intro file h
    obtain ⟨bytes, read, parsed⟩ := Option.bind_eq_some_iff.mp h
    refine ⟨bytes, orElse_eq_ok.mpr read, ?_⟩
    cases res : readHeader lib ledger bytes <;> rw [res] at parsed <;> cases parsed
    rfl
  obtain ⟨bytes, read, known⟩ := parsed h
  obtain ⟨bytes', read', known'⟩ := parsed h'
  have payload : readExact file (ledger.slotOffset slot + headerBytes) header.payloadLen =
      readExact file' (ledger.slotOffset slot + headerBytes) header.payloadLen :=
        congrArg (orElse _) same
  unfold readSlot
  simp only [read, read', known, known', bind, Except.bind, payload]

/-- Every slot of a file of the right size can be read. -/
theorem readSlot_total (lib : Libraries) (sized : ledger.Sized)
    (length_eq : file.length = ledger.fileBytes) (hslot : slot < slotCount) :
    ∃ read, readSlot lib ledger file slot = .ok read := by
  have reads : ∀ start count, start + count ≤ ledger.slotBytes →
      ∃ bytes, readExact file (ledger.slotOffset slot + start) count = .ok bytes := by
    intro start count fits
    refine ⟨_, orElse_eq_ok.mpr (if_pos ?_)⟩
    rw [length_eq]
    exact sized.inside hslot fits
  obtain ⟨bytes, read⟩ := reads 0 headerBytes (by rw [sized.slotBytes]; omega)
  unfold readSlot
  rw [Nat.add_zero] at read
  simp only [read, bind, Except.bind]
  split
  · exact ⟨_, rfl⟩
  split
  · exact ⟨_, rfl⟩
  split
  · exact ⟨_, rfl⟩
  · next header _ _ fits =>
    obtain ⟨payload, read⟩ := reads headerBytes header.payloadLen (by rw [sized.slotBytes]; omega)
    simp only [read]
    split
    · exact ⟨_, rfl⟩
    · exact ⟨_, rfl⟩

/-- A slot whose header passes its checks starts with the magic bytes. -/
theorem magic_of_slotHeader {header : SlotHeader}
    (h : slotHeader lib ledger file slot = some header) :
    read file (ledger.slotOffset slot) ledgerMagic.length = some ledgerMagic := by
  obtain ⟨bytes, read, parsed⟩ := Option.bind_eq_some_iff.mp h
  have magic : slice bytes 0 8 = ledgerMagic := by
    by_contra other
    unfold readHeader at parsed
    rw [if_pos other] at parsed
    cases parsed
  rw [read_take read (by decide)]
  exact congrArg some magic

theorem newest_left (h : ∀ slot, second = some slot → slot.generation < first.generation) :
    newest (some first) second = some first := by
  cases second with
  | none => rfl
  | some slot => exact if_pos (h slot rfl)

theorem newest_right (h : ∀ slot, first = some slot → slot.generation < second.generation) :
    newest first (some second) = some second := by
  cases first with
  | none => rfl
  | some slot => exact if_neg (not_lt_of_gt (h slot rfl))

variable {inner : LedgerInner}

theorem LedgerInner.slots (h : inner.activeSlot < slotCount) :
    inner.activeSlot = 0 ∧ inner.targetSlot = 1 ∨ inner.activeSlot = 1 ∧ inner.targetSlot = 0 := by
  unfold LedgerInner.targetSlot slotCount at *
  omega

/-! ## Writing into a slot -/

section

variable (sized : ledger.Sized) (length_eq : inner.file.length = ledger.fileBytes)
include sized length_eq

/-- The payload fits into its slot. -/
theorem payload_inside (fits : payload.length ≤ ledger.maxRawPayloadBytes) :
    headerBytes + payload.length ≤ ledger.slotBytes ∧
      ledger.slotOffset inner.targetSlot + headerBytes + payload.length ≤ inner.file.length := by
  have room : headerBytes + payload.length ≤ ledger.slotBytes := by
    rw [sized.slotBytes]
    omega
  refine ⟨room, ?_⟩
  rw [length_eq]
  exact sized.inside inner.targetSlot_lt room

/-- The header fits into its slot. -/
theorem header_inside (fits : payload.length ≤ ledger.maxRawPayloadBytes)
    (headerLength : header.length = headerBytes) :
    header.length ≤ ledger.slotBytes ∧
      ledger.slotOffset inner.targetSlot + header.length ≤
        (inner.writePayload ledger payload).length := by
  have room : header.length ≤ ledger.slotBytes := by
    rw [headerLength, sized.slotBytes]
    omega
  refine ⟨room, ?_⟩
  rw [LedgerInner.writePayload, length_write (payload_inside sized length_eq fits).2, length_eq]
  exact sized.inside inner.targetSlot_lt (Nat.le_trans (Nat.zero_add _).le room)

/-- Two files have the same bytes in a slot. -/
def SameSlot (ledger : EmbeddedUsageLedger) (slot : Nat) (file file' : List UInt8) : Prop :=
  ∀ start count, start + count ≤ ledger.slotBytes →
    read file (ledger.slotOffset slot + start) count =
      read file' (ledger.slotOffset slot + start) count

/-- A torn payload touches neither the current slot nor the header of its own. -/
theorem payload_torn (activeSlot_lt : inner.activeSlot < slotCount)
    (fits : payload.length ≤ ledger.maxRawPayloadBytes)
    (torn : Torn inner.file (inner.writePayload ledger payload) file) :
    SameSlot ledger inner.activeSlot file inner.file ∧
        read file (ledger.slotOffset inner.targetSlot) headerBytes =
        read inner.file (ledger.slotOffset inner.targetSlot) headerBytes := by
  obtain ⟨room, inside⟩ := payload_inside sized length_eq fits
  refine ⟨fun start count slot => torn.read_of_disjoint inside ?_,
    torn.read_of_disjoint inside (Or.inl le_rfl)⟩
  exact slots_disjoint activeSlot_lt inner.targetSlot_lt inner.targetSlot_ne slot room

/-- The file with the payload and the header of the next generation. -/
abbrev LedgerInner.writeSlot (inner : LedgerInner) (ledger : EmbeddedUsageLedger)
    (payload header : List UInt8) : List UInt8 :=
  write (inner.writePayload ledger payload) (ledger.slotOffset inner.targetSlot) header

/-- The next generation, once it is written. -/
theorem holds_written (activeSlot_lt : inner.activeSlot < slotCount)
    (current : ∀ header, slotHeader lib ledger inner.file inner.activeSlot = some header →
      header.generation ≤ inner.generation) (encode : encodeState lib ledger state = .ok enc)
    (next : checkedAdd inner.generation 1 = some gen)
    (write : encodeHeader lib enc.codec gen enc.payload.length enc.rawLen
      ledger.configFingerprint (lib.crc32c enc.payload) = .ok header) :
    Holds lib ledger ⟨inner.writeSlot ledger enc.payload header, state, inner.targetSlot, gen⟩ := by
  obtain ⟨-, payloadFits, rawFits, -, stored⟩ := encodeState_spec encode
  obtain ⟨rfl, fits⟩ := checkedAdd_eq_some.mp next
  obtain ⟨headerLength, parsed⟩ := encodeHeader_spec sized write fits
  obtain ⟨room, payloadInside⟩ := payload_inside sized length_eq payloadFits
  obtain ⟨small, headerInside⟩ := header_inside sized length_eq payloadFits headerLength
  have wrote : (inner.writePayload ledger enc.payload).length = inner.file.length :=
    length_write payloadInside
  have readHeaderBack :
      read (inner.writeSlot ledger enc.payload header) (ledger.slotOffset inner.targetSlot)
      headerBytes = some header := by
    rw [← headerLength]
    exact read_write headerInside
  have readPayloadBack : read (inner.writeSlot ledger enc.payload header)
      (ledger.slotOffset inner.targetSlot + headerBytes) enc.payload.length = some enc.payload := by
    rw [read_write_of_disjoint headerInside (Or.inr (by rw [headerLength]))]
    exact read_write payloadInside
  refine ⟨⟨?_, inner.targetSlot_lt, ?_⟩, ?_⟩
  · exact (length_write headerInside).trans (wrote.trans length_eq)
  · have codec : ¬ (enc.codec ≠ codecRaw ∧ enc.codec ≠ codecZstd) := by
      obtain ⟨codec, -⟩ | ⟨codec, -⟩ := stored
      · exact fun other => other.1 codec
      · exact fun other => other.2 codec
    dsimp only
    unfold readSlot readExact
    rw [readHeaderBack]
    simp only [orElse, bind, Except.bind, parsed]
    rw [if_neg codec, if_neg (by omega), readPayloadBack]
    simp only [decodePayload_encodeState sized encode]
    rfl
  · -- the header of the current slot is not newer than the current generation
    intro header' read
    have small : 0 + header.length ≤ ledger.slotBytes := (Nat.zero_add _).le.trans small
    have same : slotHeader lib ledger (inner.writeSlot ledger enc.payload header) inner.activeSlot =
        slotHeader lib ledger inner.file inner.activeSlot := by
      unfold slotHeader
      rw [read_write_of_disjoint headerInside ?_, LedgerInner.writePayload,
        read_write_of_disjoint payloadInside ?_]
      · exact slots_disjoint activeSlot_lt inner.targetSlot_lt inner.targetSlot_ne
          (headerLength ▸ small) room
      · exact slots_disjoint activeSlot_lt inner.targetSlot_lt inner.targetSlot_ne
          (headerLength ▸ small) small
    rw [LedgerInner.targetSlot_target activeSlot_lt, same] at read
    exact Nat.lt_succ_of_le (current header' read)

end

/-- The bytes of a file where a slot has its magic. -/
def magicOf (ledger : EmbeddedUsageLedger) (file : List UInt8) (slot : Nat) : List UInt8 :=
  (file.drop (ledger.slotOffset slot)).take ledgerMagic.length

theorem EmbeddedUsageLedger.Sized.magic (sized : ledger.Sized) :
    0 + ledgerMagic.length ≤ ledger.slotBytes := by
  rw [sized.slotBytes]
  exact Nat.le_add_right_of_le (by decide)

section

variable (sized : ledger.Sized) (length_eq : file.length = ledger.fileBytes)
include sized length_eq

theorem read_magicOf (hslot : slot < slotCount) :
    read file (ledger.slotOffset slot) ledgerMagic.length = some (magicOf ledger file slot) :=
  if_pos (length_eq ▸ sized.inside hslot sized.magic)

/-- A file of the right size is blank at the start of both slots, or a slot is recovered. -/
theorem openFile_sized (lib) (now) : openFile lib ledger file now =
    if (magicOf ledger file 0 ++ magicOf ledger file 1).all (· = 0)
      then firstGeneration lib ledger file now
    else recover lib ledger file >>= fun recovered =>
      .ok ⟨file, recovered.state, recovered.slot, recovered.generation⟩ := by
  have occupied : file ≠ [] := by
    rintro rfl
    rw [sized.fileBytes, sized.slotBytes] at length_eq
    unfold headerBytes slotCount at length_eq
    simp only [length_nil] at length_eq
    omega
  have blank : ∀ bytes : List UInt8, bytes.all (· = 0) = !bytes.any (· ≠ 0) := fun bytes => by
    simp [not_any_eq_all_not]
  unfold openFile slotsArePristine readExact
  rw [if_neg occupied, check, decide_eq_true length_eq, read_magicOf sized length_eq (by decide),
    read_magicOf sized length_eq (by decide), all_append, blank, blank]
  dsimp only [orElse, bind, Except.bind]
  cases (magicOf ledger file 0).any (· ≠ 0) <;> cases (magicOf ledger file 1).any (· ≠ 0) <;> rfl

end

namespace Keeps

section

variable (sized : ledger.Sized) (h : Keeps lib ledger inner)
  (older : ∀ recovered, readSlot lib ledger inner.file inner.targetSlot = .ok (.valid recovered) →
    recovered.generation < inner.generation)
include sized h older

/-- The generation in memory is recovered, unless the other slot is a later one. -/
theorem recover_eq :
    recover lib ledger inner.file = .ok ⟨inner.state, inner.activeSlot, inner.generation⟩ := by
  obtain ⟨other, readOther⟩ := readSlot_total lib sized h.length_eq inner.targetSlot_lt
  have older : ∀ recovered, other.recovered = some recovered →
      recovered.generation < inner.generation := by
    intro recovered eq
    cases other with
    | valid slot =>
      cases eq
      exact older _ readOther
    | otherConfiguration => cases eq
    | invalid => cases eq
  have valid := h.valid
  unfold recover
  obtain ⟨active, target⟩ | ⟨active, target⟩ := LedgerInner.slots h.activeSlot_lt
  · rw [active] at valid ⊢
    rw [target] at readOther
    rw [valid, readOther]
    exact orElse_eq_ok.mpr (newest_left older)
  · rw [active] at valid ⊢
    rw [target] at readOther
    rw [valid, readOther]
    exact orElse_eq_ok.mpr (newest_right older)

/-- Opening the file again gives the ledger as it was. -/
theorem openFile_eq (now) : openFile lib ledger inner.file now = .ok inner := by
  obtain ⟨header, -, valid, -⟩ := slotHeader_of_valid h.valid
  have magic :=
    (read_magicOf sized h.length_eq h.activeSlot_lt).symm.trans (magic_of_slotHeader valid)
  have used : (magicOf ledger inner.file 0 ++ magicOf ledger inner.file 1).all (· = 0) = false := by
    rw [all_append]
    obtain ⟨active, -⟩ | ⟨active, -⟩ := LedgerInner.slots h.activeSlot_lt
    · rw [active] at magic
      rw [Option.some.inj magic]
      rfl
    · rw [active] at magic
      rw [Option.some.inj magic]
      exact Bool.and_false _
  rw [openFile_sized sized h.length_eq, used, h.recover_eq sized older]
  rfl

end

theorem current (h : Keeps lib ledger inner) (found : SlotHeader)
    (read : slotHeader lib ledger inner.file inner.activeSlot = some found) :
    found.generation = inner.generation := by
  obtain ⟨header, -, valid, -, -, -, generation_eq⟩ := slotHeader_of_valid h.valid
  cases valid.symm.trans read
  exact generation_eq.symm

end Keeps

theorem Holds.openFile_eq (sized : ledger.Sized) (h : Holds lib ledger inner) (now) :
    openFile lib ledger inner.file now = .ok inner := by
  refine h.toKeeps.openFile_eq sized (fun recovered valid => ?_) now
  obtain ⟨header, -, read, -, -, -, generation_eq⟩ := slotHeader_of_valid valid
  rw [generation_eq]
  exact h.older header read

/-! ## Crashes -/

/-- Reading a slot looks at its header and at no more than its payload. -/
theorem readSlot_congr (sized : ledger.Sized) (same : SameSlot ledger slot file file') :
    readSlot lib ledger file slot = readSlot lib ledger file' slot := by
  have header := same 0 headerBytes (by rw [sized.slotBytes]; omega)
  rw [Nat.add_zero] at header
  unfold readSlot readExact
  rw [header]
  congr 1
  funext bytes
  split
  · rfl
  split
  · rfl
  split
  · rfl
  · next header _ _ fits => rw [same headerBytes header.payloadLen (by rw [sized.slotBytes]; omega)]

/-- A file in which the current slot does not differ keeps the same. -/
theorem Keeps.congr (sized : ledger.Sized) (h : Keeps lib ledger inner)
    (length_eq : file.length = inner.file.length)
    (active : SameSlot ledger inner.activeSlot file inner.file) :
    Keeps lib ledger { inner with file } where
  length_eq := length_eq.trans h.length_eq
  activeSlot_lt := h.activeSlot_lt
  valid := (readSlot_congr sized active).trans h.valid

/-- While the payload is written, the file keeps what it did, and the headers stay. -/
theorem Keeps.of_payload (sized : ledger.Sized) (h : Keeps lib ledger inner)
    (fits : payload.length ≤ ledger.maxRawPayloadBytes)
    (torn : Torn inner.file (inner.writePayload ledger payload) file) :
    Keeps lib ledger { inner with file } ∧
      slotHeader lib ledger file inner.targetSlot =
        slotHeader lib ledger inner.file inner.targetSlot := by
  obtain ⟨active, header⟩ := payload_torn sized h.length_eq h.activeSlot_lt fits torn
  refine ⟨h.congr sized torn.length_eq active, ?_⟩
  unfold slotHeader
  rw [header]

/-- The checksum of a header is right. -/
def Passes (lib : Libraries) (header : List UInt8) : Prop :=
  (lib.crc32c (slice header 0 64)).toNat = ofLE (slice header 64 68)

/-- The files that a crash can leave while a state is written: before the sync of the payload some
of its bytes, and after it the payload and some bytes of the header.  The checksum detects a torn
header. -/
inductive Crashed (lib : Libraries) (ledger : EmbeddedUsageLedger) (inner : LedgerInner)
    (state : PersistedState) : List UInt8 → Prop
  | payload {encoded : Encoded} {generation : Nat} {file : List UInt8}
    (encode : encodeState lib ledger state = .ok encoded)
    (next : checkedAdd inner.generation 1 = some generation)
    (torn : Torn inner.file (inner.writePayload ledger encoded.payload) file) :
    Crashed lib ledger inner state file
  | header {encoded : Encoded} {generation : Nat} {header file : List UInt8}
    (encode : encodeState lib ledger state = .ok encoded)
    (next : checkedAdd inner.generation 1 = some generation)
    (write : encodeHeader lib encoded.codec generation encoded.payload.length encoded.rawLen
      ledger.configFingerprint (lib.crc32c encoded.payload) = .ok header)
    (torn : Torn (inner.writePayload ledger encoded.payload)
      (File.write (inner.writePayload ledger encoded.payload)
        (ledger.slotOffset inner.targetSlot) header)
      file)
    (detected : ∀ bytes, read file (ledger.slotOffset inner.targetSlot) headerBytes = some bytes →
      Passes lib bytes → bytes = header ∨
        read inner.file (ledger.slotOffset inner.targetSlot) headerBytes = some bytes) :
    Crashed lib ledger inner state file

/-- A slot whose header fails its checksum has no header. -/
theorem passes_of_readHeader {header : SlotHeader}
    (h : readHeader lib ledger bytes = .ok header) : Passes lib bytes := by
  unfold readHeader at h
  split at h
  · cases h
  split at h
  · cases h
  · next passes => exact not_not.mp passes

/-- The file has the whole header of the next generation. -/
def Activated (lib : Libraries) (ledger : EmbeddedUsageLedger) (inner : LedgerInner)
    (state : PersistedState) (file : List UInt8) : Prop :=
  ∃ encoded generation header, encodeState lib ledger state = .ok encoded ∧
    checkedAdd inner.generation 1 = some generation ∧
    encodeHeader lib encoded.codec generation encoded.payload.length encoded.rawLen
      ledger.configFingerprint (lib.crc32c encoded.payload) = .ok header ∧
    read file (ledger.slotOffset inner.targetSlot) headerBytes = some header

theorem Activated.slotHeader_eq (sized : ledger.Sized) (h : Activated lib ledger inner state file) :
    ∃ found, slotHeader lib ledger file inner.targetSlot = some found ∧
      found.generation = inner.generation + 1 := by
  obtain ⟨enc, gen, header, -, next, write, read⟩ := h
  obtain ⟨rfl, fits⟩ := checkedAdd_eq_some.mp next
  obtain ⟨-, parsed⟩ := encodeHeader_spec sized write fits
  unfold slotHeader
  rw [read, Option.bind_some, parsed]
  exact ⟨_, rfl, rfl⟩

section

variable (sized : ledger.Sized) (length_eq : inner.file.length = ledger.fileBytes)
  (activeSlot_lt : inner.activeSlot < slotCount)
include sized length_eq activeSlot_lt

/-- A crash leaves the current slot as it was. -/
theorem Crashed.sameSlot (crashed : Crashed lib ledger inner state file) :
    file.length = inner.file.length ∧ SameSlot ledger inner.activeSlot file inner.file := by
  cases crashed with
  | payload encode next torn =>
    obtain ⟨-, fits, -, -, -⟩ := encodeState_spec encode
    exact ⟨torn.length_eq, (payload_torn sized length_eq activeSlot_lt fits torn).1⟩
  | @header enc gen header _ encode next write torn detected =>
    obtain ⟨-, fits, -, -, -⟩ := encodeState_spec encode
    obtain ⟨rfl, fitsGeneration⟩ := checkedAdd_eq_some.mp next
    obtain ⟨headerLength, -⟩ := encodeHeader_spec sized write fitsGeneration
    obtain ⟨small, inside⟩ := header_inside sized length_eq fits headerLength
    have wrote := length_write (payload_inside sized length_eq fits).2
    refine ⟨torn.length_eq.trans wrote, fun start count slot => ?_⟩
    have small : 0 + header.length ≤ ledger.slotBytes := (Nat.zero_add _).le.trans small
    rw [torn.read_of_disjoint inside (slots_disjoint activeSlot_lt
      inner.targetSlot_lt inner.targetSlot_ne slot small)]
    exact (payload_torn sized length_eq activeSlot_lt fits (Torn.all wrote)).1 start count slot

/-- A crash leaves the next generation, or no new header. -/
theorem Crashed.cases
      (current : ∀ header, slotHeader lib ledger inner.file inner.activeSlot = some header →
      header.generation ≤ inner.generation) (crashed : Crashed lib ledger inner state file) :
    Activated lib ledger inner state file ∧
        Holds lib ledger ⟨file, state, inner.targetSlot, inner.generation + 1⟩ ∨
      ∀ found, slotHeader lib ledger file inner.targetSlot = some found →
        slotHeader lib ledger inner.file inner.targetSlot = some found := by
  cases crashed with
  | payload encode next torn =>
    obtain ⟨-, fits, -, -, -⟩ := encodeState_spec encode
    obtain ⟨-, header⟩ := payload_torn sized length_eq activeSlot_lt fits torn
    refine Or.inr fun found read => ?_
    unfold slotHeader at read ⊢
    rwa [header] at read
  | @header enc gen header _ encode next write torn detected =>
    obtain ⟨-, fits, -, -, -⟩ := encodeState_spec encode
    obtain ⟨rfl, fitsGeneration⟩ := checkedAdd_eq_some.mp next
    obtain ⟨headerLength, -⟩ := encodeHeader_spec sized write fitsGeneration
    obtain ⟨-, inside⟩ := header_inside sized length_eq fits headerLength
    by_cases complete : read file (ledger.slotOffset inner.targetSlot) headerBytes = some header
    · refine Or.inl ⟨⟨enc, _, header, encode, next, write, complete⟩, ?_⟩
      rw [← headerLength] at complete
      rw [torn.eq_write_of_read inside complete]
      exact holds_written sized length_eq activeSlot_lt current encode next write
    · refine Or.inr fun found read => ?_
      obtain ⟨bytes, readBytes, parsed⟩ := Option.bind_eq_some_iff.mp read
      cases res : readHeader lib ledger bytes with
      | error other => rw [res] at parsed; cases parsed
      | ok _ =>
        obtain rfl | same := detected bytes readBytes (passes_of_readHeader res)
        · exact absurd readBytes complete
        · exact Option.bind_eq_some_iff.mpr ⟨bytes, same, parsed⟩

end

/-- A crash leaves the generation in memory in the file. -/
theorem Keeps.of_crashed (sized : ledger.Sized) (h : Keeps lib ledger inner)
    (crashed : Crashed lib ledger inner state file) : Keeps lib ledger { inner with file } := by
  obtain ⟨length_eq, active⟩ := crashed.sameSlot sized h.length_eq h.activeSlot_lt
  exact h.congr sized length_eq active

/-- After a crash the file holds the generation before or the one that was written. -/
theorem Holds.of_crashed (sized : ledger.Sized) (h : Holds lib ledger inner)
    (crashed : Crashed lib ledger inner state file) :
    Holds lib ledger { inner with file } ∨ Activated lib ledger inner state file ∧
      Holds lib ledger ⟨file, state, inner.targetSlot, inner.generation + 1⟩ := by
  obtain written | headers :=
    crashed.cases sized h.length_eq h.activeSlot_lt fun found read => (h.current found read).le
  · exact Or.inr written
  · exact Or.inl ⟨h.toKeeps.of_crashed sized crashed, fun found read =>
      h.older found (headers found read)⟩

/-! ## Histories -/

/-- What writing a state can do. -/
theorem persistLocked_cases (lib) (ledger) (inner) (state) :
    (∃ error, persistLocked lib ledger inner state = (.error error, inner)) ∨
      ∃ enc, encodeState lib ledger state = .ok enc ∧
        ((∃ error, persistLocked lib ledger inner state =
            (.error error, { inner with file := inner.writePayload ledger enc.payload })) ∨
          ∃ gen header, checkedAdd inner.generation 1 = some gen ∧
            encodeHeader lib enc.codec gen enc.payload.length enc.rawLen
              ledger.configFingerprint (lib.crc32c enc.payload) = .ok header ∧
            persistLocked lib ledger inner state = (.ok (),
              ⟨inner.writeSlot ledger enc.payload header, state, inner.targetSlot, gen⟩)) := by
  unfold persistLocked
  cases encode : encodeState lib ledger state with
  | error error => exact Or.inl ⟨error, rfl⟩
  | ok enc =>
    cases next : checkedAdd inner.generation 1 with
    | none => exact Or.inl ⟨_, rfl⟩
    | some gen =>
      refine Or.inr ⟨enc, rfl, ?_⟩
      dsimp only
      cases write : encodeHeader lib enc.codec gen enc.payload.length enc.rawLen
          ledger.configFingerprint (lib.crc32c enc.payload) with
      | error error => exact Or.inl ⟨error, rfl⟩
      | ok header => exact Or.inr ⟨gen, header, rfl, write, rfl⟩

/-- A call that writes a state is refused over the file as it was or with its payload in it, or
leaves a file that holds the new generation. -/
theorem Keeps.persistLocked (sized : ledger.Sized) (h : Keeps lib ledger inner) (state) :
    Keeps lib ledger (persistLocked lib ledger inner state).2 ∧
      (Holds lib ledger (persistLocked lib ledger inner state).2 ∨
        ∃ file, (persistLocked lib ledger inner state).2 = { inner with file } ∧
          slotHeader lib ledger file inner.targetSlot =
            slotHeader lib ledger inner.file inner.targetSlot) := by
  obtain ⟨error, eq⟩ | ⟨enc, encode, ⟨error, eq⟩ | ⟨gen, header, next, write, eq⟩⟩ :=
    persistLocked_cases lib ledger inner state
  · rw [eq]
    exact ⟨h, Or.inr ⟨inner.file, rfl, rfl⟩⟩
  · obtain ⟨-, fits, -, -, -⟩ := encodeState_spec encode
    obtain ⟨kept, headers⟩ :=
      h.of_payload sized fits (Torn.all (length_write (payload_inside sized h.length_eq fits).2))
    rw [eq]
    exact ⟨kept, Or.inr ⟨_, rfl, headers⟩⟩
  · have held := holds_written sized h.length_eq h.activeSlot_lt
      (fun found read => (h.current found read).le) encode next write
    rw [eq]
    exact ⟨held.toKeeps, Or.inl held⟩

/-- A call that writes a state leaves a file that holds what is in memory. -/
theorem Holds.persistLocked (sized : ledger.Sized) (h : Holds lib ledger inner)
    (state) : Holds lib ledger (persistLocked lib ledger inner state).2 := by
  obtain ⟨kept, held | ⟨file, eq, headers⟩⟩ := h.toKeeps.persistLocked sized state
  · exact held
  · rw [eq] at kept ⊢
    exact ⟨kept, fun header read => h.older header (headers ▸ read)⟩

/-- A ledger in use: it was created, states were written, a write or a sync failed and left memory
as it was, and it was opened again after crashes. -/
inductive History (lib : Libraries) (ledger : EmbeddedUsageLedger) : LedgerInner → Prop
  | create {now : Nat} {inner : LedgerInner} (created : openFile lib ledger [] now = .ok inner) :
    History lib ledger inner
  | persist {inner : LedgerInner} (before : History lib ledger inner) (state : PersistedState) :
    History lib ledger (persistLocked lib ledger inner state).2
  | fail {inner : LedgerInner} {state : PersistedState} {file : List UInt8}
    (before : History lib ledger inner) (failed : Crashed lib ledger inner state file) :
    History lib ledger { inner with file }
  | crash {inner inner' : LedgerInner} {state : PersistedState} {file : List UInt8} {now : Nat}
    (before : History lib ledger inner) (crashed : Crashed lib ledger inner state file)
    (opened : openFile lib ledger file now = .ok inner') : History lib ledger inner'

/-- A file of zeros has no headers. -/
theorem slotHeader_blank (lib) (ledger) (slot) :
    slotHeader lib ledger (replicate ledger.fileBytes 0) slot = none := by
  cases wrote : slotHeader lib ledger (replicate ledger.fileBytes 0) slot with
  | none => rfl
  | some header =>
    -- the magic bytes are not zeros
    have first := getElem?_of_read (magic_of_slotHeader wrote)
      (show 0 < ledgerMagic.length by decide)
    rw [getElem?_replicate] at first
    split at first
    · exact absurd first (by decide)
    · exact absurd first (by decide)

/-- The ledger before its first generation is written to a file. -/
def LedgerInner.blank (ledger : EmbeddedUsageLedger) (file : List UInt8) : LedgerInner :=
  ⟨file, empty ledger.featureIds.length, 1, 0⟩

theorem LedgerInner.targetSlot_blank : (LedgerInner.blank ledger file).targetSlot = 0 :=
  Nat.mod_self 2

/-- The state of the first generation. -/
def PersistedState.first (ledger : EmbeddedUsageLedger) (now : Nat) : PersistedState :=
  { empty ledger.featureIds.length with lastSuccessfulCheckpointUnixSeconds := now }

theorem firstGeneration_eq_ok : firstGeneration lib ledger file now = .ok inner ↔
    persistLocked lib ledger (.blank ledger file) (.first ledger now) = (.ok (), inner) := by
  unfold firstGeneration LedgerInner.blank first
  dsimp only
  split
  · next written => simp [written]
  · next written => simp [written]

/-- The first generation is held, although there is none before it. -/
theorem holds_of_first (sized : ledger.Sized) (length_eq : file.length = ledger.fileBytes)
    (headless : slotHeader lib ledger file 1 = none)
    (created : firstGeneration lib ledger file now = .ok inner) :
    Holds lib ledger inner ∧ inner.state = .first ledger now := by
  have first := firstGeneration_eq_ok.mp created
  obtain ⟨error, eq⟩ | ⟨enc, encode, ⟨error, eq⟩ | ⟨gen, header, next, write, eq⟩⟩ :=
    persistLocked_cases lib ledger (.blank ledger file) (.first ledger now)
  · cases first.symm.trans eq
  · cases first.symm.trans eq
  · cases first.symm.trans eq
    refine ⟨holds_written sized length_eq (show 1 < slotCount by decide) ?_ encode next write, rfl⟩
    intro found read
    cases headless.symm.trans read

theorem holds_of_create (sized : ledger.Sized) (created : openFile lib ledger [] now = .ok inner) :
    Holds lib ledger inner ∧ inner.state = .first ledger now :=
  holds_of_first sized (length_replicate ..) (slotHeader_blank lib ledger 1) created

/-! ## What a failed call leaves -/

/-- The file holds the generation in memory, and the other slot could hold an older one, or the next
one that a failed call left. -/
structure Carries (lib : Libraries) (ledger : EmbeddedUsageLedger) (inner : LedgerInner) : Prop
    extends Keeps lib ledger inner where
  other : ∀ header, slotHeader lib ledger inner.file inner.targetSlot = some header →
    header.generation < inner.generation ∨ header.generation = inner.generation + 1

theorem Holds.carries (h : Holds lib ledger inner) : Carries lib ledger inner :=
  ⟨h.toKeeps, fun header read => Or.inl (h.older header read)⟩

/-- A whole generation after the one in memory is in the file, with this state. -/
def LeftBehind (lib : Libraries) (ledger : EmbeddedUsageLedger) (inner : LedgerInner)
    (left : PersistedState) : Prop :=
  readSlot lib ledger inner.file inner.targetSlot =
    .ok (.valid ⟨left, inner.targetSlot, inner.generation + 1⟩)

/-- The header of the other slot and the payload that it describes are still those of the ledger's
file. -/
def Untouched (lib : Libraries) (ledger : EmbeddedUsageLedger) (inner : LedgerInner)
    (file : List UInt8) : Prop :=
  ∀ header, slotHeader lib ledger inner.file inner.targetSlot = some header →
    slotHeader lib ledger file inner.targetSlot = some header ∧
      readPayload ledger file inner.targetSlot header =
        readPayload ledger inner.file inner.targetSlot header

/-- The checksum detects a torn payload: one that passes under a header that was there before is the
one that was there. -/
def Detects (lib : Libraries) (ledger : EmbeddedUsageLedger) (inner : LedgerInner)
    (file : List UInt8) : Prop :=
  ∀ header payload, slotHeader lib ledger inner.file inner.targetSlot = some header →
    readPayload ledger file inner.targetSlot header = some payload →
    (lib.crc32c payload).toNat = header.payloadCrc →
      readPayload ledger inner.file inner.targetSlot header = some payload

section

variable (sized : ledger.Sized) (h : Carries lib ledger inner)
include sized h

/-- What a crash or a failed write leaves. -/
theorem Carries.of_crashed (crashed : Crashed lib ledger inner state file) :
    Carries lib ledger { inner with file } := by
  refine ⟨h.toKeeps.of_crashed sized crashed, fun header read => ?_⟩
  obtain ⟨activated, -⟩ | headers :=
    crashed.cases sized h.length_eq h.activeSlot_lt fun found read => (h.current found read).le
  · obtain ⟨found, known, next⟩ := activated.slotHeader_eq sized
    cases known.symm.trans read
    exact Or.inr next
  · exact h.other header (headers header read)

omit sized in
/-- A generation that was left behind is the one that is opened, from then on without a later
one. -/
theorem Carries.holds_left (left : LeftBehind lib ledger inner state) :
    Holds lib ledger ⟨inner.file, state, inner.targetSlot, inner.generation + 1⟩ := by
  refine ⟨⟨h.length_eq, inner.targetSlot_lt, left⟩, fun header read => ?_⟩
  rw [LedgerInner.targetSlot_target h.activeSlot_lt] at read
  rw [h.current header read]
  exact Nat.lt_succ_self _

/-- Opening the file gives the generation that was left behind, or the ledger as it was. -/
theorem Carries.openFile_cases (now) :
    (∃ left, LeftBehind lib ledger inner left ∧
      openFile lib ledger inner.file now =
        .ok ⟨inner.file, left, inner.targetSlot, inner.generation + 1⟩) ∨
      openFile lib ledger inner.file now = .ok inner := by
  by_cases left : ∃ left, LeftBehind lib ledger inner left
  · obtain ⟨left, behind⟩ := left
    exact Or.inl ⟨left, behind, (h.holds_left behind).openFile_eq sized now⟩
  · refine Or.inr (h.toKeeps.openFile_eq sized (fun recovered valid => ?_) now)
    obtain ⟨header, -, read, -, -, slot, generation_eq⟩ := slotHeader_of_valid valid
    refine generation_eq ▸ (h.other header read).resolve_right fun next =>
      left ⟨recovered.state, ?_⟩
    rw [LeftBehind, valid, ← next, ← generation_eq, ← slot]

end

theorem History.carries (sized : ledger.Sized) (h : History lib ledger inner) :
    Carries lib ledger inner := by
  induction h with
  | create created => exact (holds_of_create sized created).1.carries
  | persist _ state ih =>
    obtain ⟨kept, held | ⟨file, eq, headers⟩⟩ := ih.toKeeps.persistLocked sized state
    · exact held.carries
    · rw [eq] at kept ⊢
      exact ⟨kept, fun header read => ih.other header (headers ▸ read)⟩
  | fail _ failed ih => exact ih.of_crashed sized failed
  | @crash inner inner' state file now _ crashed opened ih =>
    have after := ih.of_crashed sized crashed
    obtain ⟨left, behind, eq⟩ | eq := after.openFile_cases sized now
    · cases eq.symm.trans opened
      exact (after.holds_left behind).carries
    · cases eq.symm.trans opened
      exact after

/-- However the writing of a generation is interrupted, opening the file recovers the generation
before or the one that was written, if and only if no earlier call failed and left its generation
behind, with another state and not touched by the one that was interrupted. -/
theorem crash_recovers_generation_iff {conf : EmbeddedUsageLedgerConfig}
    (new : new lib conf = .ok ledger) {inner : LedgerInner}
    (hist : History lib ledger inner) {state : PersistedState} {file : List UInt8}
    (crashed : Crashed lib ledger inner state file) (detects : Detects lib ledger inner file)
    (now : Nat) : (∃ inner', openFile lib ledger file now = .ok inner' ∧
      (inner'.generation = inner.generation ∧ inner'.state = inner.state ∨
        inner'.generation = inner.generation + 1 ∧ inner'.state = state)) ↔
      ∀ left, LeftBehind lib ledger inner left → Untouched lib ledger inner file →
        left = state := by
  have sized := sized_of_new new
  have before := hist.carries sized
  have after := before.of_crashed sized crashed
  constructor
  · rintro ⟨inner', opened, recovered⟩ left behind untouched
    obtain ⟨header, -, read, -⟩ := slotHeader_of_valid behind
    obtain ⟨same, payload⟩ := untouched header read
    have still : LeftBehind lib ledger { inner with file } left :=
      (readSlot_eq_of_header same read payload).trans behind
    cases ((after.holds_left still).openFile_eq sized now).symm.trans opened
    obtain ⟨next, -⟩ | ⟨-, same⟩ := recovered
    · exact absurd next (Nat.succ_ne_self _)
    · exact same
  · intro only
    obtain ⟨-, held⟩ | headers := crashed.cases sized before.length_eq before.activeSlot_lt
      fun found read => (before.current found read).le
    · exact ⟨_, held.openFile_eq sized now, Or.inr ⟨rfl, rfl⟩⟩
    obtain ⟨left, behind, opened⟩ | opened := after.openFile_cases sized now
    · -- a later generation under a header that was there before is the one that was left behind
      obtain ⟨header, payload, read, found, crc, -⟩ := slotHeader_of_valid behind
      have known := headers header read
      have same := detects header payload known found crc
      refine ⟨_, opened, Or.inr ⟨rfl, only left ?_ fun other read' => ?_⟩⟩
      · exact (readSlot_eq_of_header known read (same.trans found.symm)).trans behind
      · cases known.symm.trans read'
        exact ⟨read, found.trans same.symm⟩
    · exact ⟨_, opened, Or.inl ⟨rfl, rfl⟩⟩

/-! ## The first opening -/

/-- The files that a crash of the first opening can leave. -/
inductive FirstCrashed (lib : Libraries) (ledger : EmbeddedUsageLedger) (now : Nat) :
    List UInt8 → Prop
  | created : FirstCrashed lib ledger now []
  | allocated : FirstCrashed lib ledger now (replicate ledger.fileBytes 0)
  | writing {file : List UInt8} (crashed : Crashed lib ledger
      (.blank ledger (replicate ledger.fileBytes 0)) (.first ledger now) file) :
    FirstCrashed lib ledger now file

/-- The first opening leaves an empty file, the first generation, or a file without headers. -/
theorem FirstCrashed.cases (sized : ledger.Sized) {now : Nat}
    (h : FirstCrashed lib ledger now file) : file = [] ∨
      Activated lib ledger (.blank ledger (replicate ledger.fileBytes 0)) (.first ledger now) file ∧
        Holds lib ledger ⟨file, .first ledger now, 0, 1⟩ ∨
      file.length = ledger.fileBytes ∧ slotHeader lib ledger file 0 = none ∧
        SameSlot ledger 1 file (replicate ledger.fileBytes 0) := by
  cases h with
  | created => exact Or.inl rfl
  | allocated =>
    exact Or.inr (Or.inr ⟨length_replicate .., slotHeader_blank lib ledger 0, fun _ _ _ => rfl⟩)
  | writing crashed =>
    have lt : 1 < slotCount := by decide
    have written := crashed.cases sized (length_replicate ..) lt
      fun found read => by cases (slotHeader_blank lib ledger 1).symm.trans read
    obtain ⟨length_eq, active⟩ := crashed.sameSlot sized (length_replicate ..) lt
    rw [LedgerInner.targetSlot_blank] at written
    obtain written | headers := written
    · exact Or.inr (Or.inl written)
    · refine Or.inr (Or.inr ⟨length_eq.trans (length_replicate ..), ?_, active⟩)
      refine Option.eq_none_iff_forall_ne_some.mpr fun found read => ?_
      cases (slotHeader_blank lib ledger 0).symm.trans (headers found read)

/-- A slot is recovered by its header. -/
theorem recovered_eq_none (headless : slotHeader lib ledger file slot = none)
    (read : readSlot lib ledger file slot = .ok found) : found.recovered = none := by
  cases found with
  | valid recovered =>
    obtain ⟨header, -, known, -⟩ := slotHeader_of_valid read
    cases headless.symm.trans known
  | otherConfiguration => rfl
  | invalid => rfl

/-- The libraries write the first state, and it fits its slot. -/
structure FirstFits (lib : Libraries) (ledger : EmbeddedUsageLedger) (now : Nat) : Prop where
  le : (lib.toVec (.first ledger now)).length ≤ ledger.maxRawPayloadBytes
  lt : (lib.toVec (.first ledger now)).length < 2 ^ 32
  compresses : ∃ bytes, lib.zstd.compress (lib.toVec (.first ledger now)) = .ok bytes

theorem FirstFits.encodes (h : FirstFits lib ledger now) :
    ∃ enc, encodeState lib ledger (.first ledger now) = .ok enc ∧ enc.payload.length < 2 ^ 32 ∧
      enc.rawLen < 2 ^ 32 := by
  obtain ⟨bytes, compress⟩ := h.compresses
  have valid :
      validateState (.first ledger now) ledger.featureIds.length ledger.monthlyBuckets = .ok () :=
    check_eq_ok.mpr (by simp [first, empty])
  have le := h.le
  have lt := h.lt
  unfold encodeState
  simp only [valid, compress, check, le, decide_true, if_true, Except.mapError, bind, Except.bind]
  by_cases shorter : bytes.length < (lib.toVec (first ledger now)).length
  · simp only [shorter, shorter.le.trans le, decide_true, if_true]
    exact ⟨_, rfl, shorter.trans lt, lt⟩
  · simp only [shorter, le, decide_true, if_true, if_false]
    exact ⟨_, rfl, lt, lt⟩

/-- The first state is written to every file. -/
theorem FirstFits.writes (h : FirstFits lib ledger now) (file) :
    ∃ inner, firstGeneration lib ledger file now = .ok inner := by
  obtain ⟨enc, encode, payloadFits, rawFits⟩ := h.encodes
  have write : ∃ header, encodeHeader lib enc.codec 1 enc.payload.length enc.rawLen
      ledger.configFingerprint (lib.crc32c enc.payload) = .ok header := by
    unfold encodeHeader
    simp only [check, payloadFits, rawFits, decide_true, if_true, bind, Except.bind]
    exact ⟨_, rfl⟩
  obtain ⟨header, write⟩ := write
  have next : checkedAdd (LedgerInner.blank ledger file).generation 1 = some 1 := rfl
  refine ⟨⟨(LedgerInner.blank ledger file).writeSlot ledger enc.payload header, .first ledger now,
    (LedgerInner.blank ledger file).targetSlot, 1⟩, firstGeneration_eq_ok.mpr ?_⟩
  unfold persistLocked
  rw [encode]
  simp only [next, write]

/-- A crash of the first opening leaves a file that opens, as an empty ledger or as the first
generation, if and only if none of the magic bytes of the header is in the file, or the whole header
is. -/
theorem first_open_recovers_iff {conf : EmbeddedUsageLedgerConfig} (new : new lib conf = .ok ledger)
    {later : Nat} (fits : FirstFits lib ledger later)
    {now : Nat} {file : List UInt8} (crashed : FirstCrashed lib ledger now file) :
    (∃ inner, openFile lib ledger file later = .ok inner ∧
      (inner.state = .first ledger later ∨ inner.generation = 1 ∧
        inner.state = .first ledger now)) ↔
      (magicOf ledger file 0).all (· = 0) = true ∨
        Activated lib ledger (.blank ledger (replicate ledger.fileBytes 0))
          (.first ledger now) file := by
  have sized := sized_of_new new
  obtain rfl | ⟨activated, holds⟩ | ⟨length_eq, headless, second⟩ := crashed.cases sized
  · obtain ⟨fresh, opened⟩ := fits.writes (replicate ledger.fileBytes 0)
    exact iff_of_true ⟨fresh, opened, Or.inl (holds_of_create sized opened).2⟩ (Or.inl rfl)
  · exact iff_of_true ⟨_, holds.openFile_eq sized later, Or.inr ⟨rfl, rfl⟩⟩ (Or.inr activated)
  · have blank : slotHeader lib ledger file 1 = none := by
      have same := second 0 headerBytes (by rw [sized.slotBytes]; omega)
      rw [Nat.add_zero] at same
      unfold slotHeader
      rw [same]
      exact slotHeader_blank lib ledger 1
    have zeros : (magicOf ledger file 1).all (· = 0) = true := by
      have same := second 0 _ sized.magic
      rw [Nat.add_zero, read_magicOf sized length_eq (by decide),
        read_magicOf sized (length_replicate ..) (by decide)] at same
      rw [Option.some.inj same]
      simp [magicOf]
    rw [openFile_sized sized length_eq, all_append, zeros, Bool.and_true]
    cases (magicOf ledger file 0).all (· = 0) with
    | true =>
      obtain ⟨fresh, opened⟩ := fits.writes file
      exact iff_of_true ⟨fresh, opened, Or.inl (holds_of_first sized length_eq blank opened).2⟩
        (Or.inl rfl)
    | false =>
      refine iff_of_false ?_ ?_
      · rintro ⟨inner, opened, -⟩
        obtain ⟨recovered, found, -⟩ := andThen_eq_ok.mp opened
        obtain ⟨first, readFirst, found⟩ := andThen_eq_ok.mp found
        obtain ⟨other, readOther, found⟩ := andThen_eq_ok.mp found
        rw [recovered_eq_none headless readFirst, recovered_eq_none blank readOther] at found
        cases found
      · rintro (start | activated)
        · cases start
        · obtain ⟨found, read, -⟩ := activated.slotHeader_eq sized
          rw [LedgerInner.targetSlot_blank, headless] at read
          cases read

/-! ## A small ledger -/

deriving instance Encodable for PersistedMonth, PersistedState

/-- A ledger of one feature and one month: new, with the feature used once, full, and active for a
second. -/
def sampleStates : List PersistedState :=
  [⟨[0], 0, 0, [], 0⟩, ⟨[1], 0, 0, [⟨23640, [1], 0, 0⟩], 0⟩, .maximumSized 1 1,
    ⟨[0], 1, 0, [⟨23640, [0], 1, 0⟩], 0⟩]

/-- The states of the small ledger are written as one byte, all others by their number. -/
def sampleToVec (state : PersistedState) : List UInt8 :=
  match sampleStates.idxOf? state with
  | some place => [UInt8.ofNat place]
  | none => replicate (encode state + 2) 0

def sampleFromSlice : List UInt8 → Option PersistedState
  | [place] => sampleStates[place.toNat]?
  | bytes => decode (bytes.length - 2)

theorem sampleFromSlice_sampleToVec (state) : sampleFromSlice (sampleToVec state) = some state := by
  unfold sampleToVec
  cases found : sampleStates.idxOf? state with
  | none =>
    show decode ((replicate (encode state + 2) (0 : UInt8)).length - 2) = some state
    rw [length_replicate, Nat.add_sub_cancel, encodek]
  | some place =>
    obtain ⟨lt, same, -⟩ := findIdx?_eq_some_iff_getElem.mp found
    have small : place < 256 := lt.trans (by decide)
    show sampleStates[(UInt8.ofNat place).toNat]? = some state
    rw [UInt8.toNat_ofNat_of_lt' small, getElem?_eq_getElem lt]
    exact congrArg some (eq_of_beq same)

def sampleLibraries : Libraries where
  toVec := sampleToVec
  fromSlice := sampleFromSlice
  fromSlice_toVec := fun state _ => sampleFromSlice_sampleToVec state
  zstd := .stored
  crc32c := fun bytes => UInt32.ofNat bytes.length
  blake3 := fun _ => replicate 32 7
  length_blake3 := fun _ => length_replicate
  fromTimestamp := fun _ => some (1970, 1)

def sampleConfig : EmbeddedUsageLedgerConfig := ⟨[[97]], 1, .reject, 1000⟩

def sampleLedger : EmbeddedUsageLedger :=
  ⟨[[97]], 1, .reject, 1000, 138, 69, 1, replicate 32 7⟩

/-- The small ledger after it was created. -/
def sampleInner : LedgerInner :=
  (persistLocked sampleLibraries sampleLedger ⟨replicate 138 0, .empty 1, 1, 0⟩ (.empty 1)).2

theorem sampleInner_created : openFile sampleLibraries sampleLedger [] 0 = .ok sampleInner := by
  decide +kernel

/-- The small ledger after the feature was used once. -/
def sampleUsed : PersistedState := ⟨[1], 0, 0, [⟨23640, [1], 0, 0⟩], 0⟩

theorem sample_crashed : Crashed sampleLibraries sampleLedger sampleInner sampleUsed
    (sampleInner.writePayload sampleLedger [1]) := by
  have next : checkedAdd sampleInner.generation 1 = some 2 := by decide +kernel
  exact .payload rfl next (Torn.all (by decide +kernel))

/-- The use of a feature is written to a new ledger, and the crash comes before its header is. -/
theorem crash_recovers_sample :
    ∃ inner', openFile sampleLibraries sampleLedger (sampleInner.writePayload sampleLedger [1]) 0 =
        .ok inner' ∧
      (inner'.generation = sampleInner.generation ∧ inner'.state = sampleInner.state ∨
        inner'.generation = sampleInner.generation + 1 ∧
          inner'.state = ⟨[1], 0, 0, [⟨23640, [1], 0, 0⟩], 0⟩) := by
  have new : new sampleLibraries sampleConfig = .ok sampleLedger := by rfl
  have blank :
      slotHeader sampleLibraries sampleLedger sampleInner.file sampleInner.targetSlot = none := by
    decide +kernel
  refine (crash_recovers_generation_iff new (.create sampleInner_created) sample_crashed
    (fun header payload read => ?_) 0).mpr fun left behind => ?_
  · cases blank.symm.trans read
  · obtain ⟨header, -, read, -⟩ := slotHeader_of_valid behind
    cases blank.symm.trans read

/-- The whole header of a use of the feature is in the file. -/
theorem sample_failed : Crashed sampleLibraries sampleLedger sampleInner sampleUsed
    (persistLocked sampleLibraries sampleLedger sampleInner sampleUsed).2.file :=
  .header rfl rfl rfl (Torn.all (by decide +kernel)) fun bytes read _ =>
    Or.inl (Option.some.inj (read.symm.trans (by decide +kernel)))

/-- The ledger after a use of the feature whose last sync failed. -/
def sampleFailed : LedgerInner :=
  { sampleInner with
    file := (persistLocked sampleLibraries sampleLedger sampleInner sampleUsed).2.file }

/-- The last sync of a call fails after its header was written, and the next call crashes before it
has written anything: the call that failed is recovered, which is neither the generation in memory
nor the one that was written. -/
theorem failed_generation_recovered :
    ¬ ∀ (lib : Libraries) (conf : EmbeddedUsageLedgerConfig) (ledger : EmbeddedUsageLedger)
      (inner : LedgerInner) (state : PersistedState) (file : List UInt8) (now : Nat),
      new lib conf = .ok ledger → History lib ledger inner → Crashed lib ledger inner state file →
        Detects lib ledger inner file → ∃ inner', openFile lib ledger file now = .ok inner' ∧
          (inner'.generation = inner.generation ∧ inner'.state = inner.state ∨
            inner'.generation = inner.generation + 1 ∧ inner'.state = state) := by
  intro all
  have hist : History sampleLibraries sampleLedger sampleFailed :=
    .fail (.create sampleInner_created) sample_failed
  have crashed : Crashed sampleLibraries sampleLedger sampleFailed
      ⟨[0], 1, 0, [⟨23640, [0], 1, 0⟩], 0⟩ sampleFailed.file := .payload rfl rfl Torn.none
  obtain ⟨inner', opened, recovered⟩ := all _ sampleConfig _ _ _ _ 0 rfl hist crashed
    fun _ _ _ found _ => found
  have used : openFile sampleLibraries sampleLedger sampleFailed.file 0 =
      .ok (persistLocked sampleLibraries sampleLedger sampleInner sampleUsed).2 := by decide +kernel
  cases used.symm.trans opened
  revert recovered
  decide +kernel

theorem sample_fits : FirstFits sampleLibraries sampleLedger 0 where
  le := by decide +kernel
  lt := by decide +kernel
  compresses := ⟨_, rfl⟩

/-- The first opening crashes when its file is allocated. -/
theorem first_open_recovers_sample :
    ∃ inner, openFile sampleLibraries sampleLedger (replicate 138 0) 0 = .ok inner ∧
      (inner.state = .first sampleLedger 0 ∨ inner.generation = 1 ∧
        inner.state = .first sampleLedger 0) :=
  (first_open_recovers_iff (show new _ sampleConfig = _ by rfl) sample_fits .allocated).mpr
    (Or.inl (by decide +kernel))

/-- Only the first byte of the first header is written: the file is neither blank nor recovered. -/
theorem torn_magic_not_opened :
    ¬ ∀ (lib : Libraries) (conf : EmbeddedUsageLedgerConfig) (ledger : EmbeddedUsageLedger)
      (now later : Nat)
      (file : List UInt8), new lib conf = .ok ledger →
        FirstFits lib ledger later → FirstCrashed lib ledger now file →
          ∃ inner, openFile lib ledger file later = .ok inner := by
  intro all
  have unmatched : ∀ bytes ∈ read (83 :: replicate 137 0) 0 headerBytes,
      ¬ Passes sampleLibraries bytes := by
    unfold Passes
    decide +kernel
  have crashed : Crashed sampleLibraries sampleLedger (.blank sampleLedger (replicate 138 0))
      (.first sampleLedger 0) (83 :: replicate 137 0) := by
    refine .header rfl rfl rfl ⟨rfl, fun i => ?_⟩ fun bytes read passes => ?_
    · cases i with
      | zero => exact Or.inr rfl
      | succ i => exact Or.inl rfl
    · exact absurd passes (unmatched bytes read)
  have lost :
      (openFile sampleLibraries sampleLedger (83 :: replicate 137 0) 0).toOption = none := by
    decide +kernel
  obtain ⟨inner, opened⟩ := all _ sampleConfig _ 0 0 _ rfl sample_fits (.writing crashed)
  rw [opened] at lost
  cases lost

end ShardTelemetry.Usage
