import Mathlib.Data.List.Induction
import ShardTelemetry.IngestPack.Codec
import ShardTelemetry.Lib.Newest

/-!
# Demultiplexing an ingest pack

The groups of a pack partition its records by their cohorts (`Grouped`).  A frame that was packed
(`Frame`) is read back from the payload and from the transient context, so one rule about the loop
over the groups serves the three ways to read a pack: its events, its live frames and its recovered
frames.
-/

namespace ShardTelemetry.IngestPack

open Bytes List Bool

variable {Metadata Index : Type}

/-! ## Cohorts -/

/-- The groups partition the records; each has the records of its cohort, in their order. -/
structure Grouped (records : List (IngestRecordView Metadata)) (cohorts : List (Cohort Metadata)) :
    Prop where
  sorted : cohorts.Pairwise fun left right => left.1 < right.1
  perm : (cohorts.flatMap (·.2)).Perm records
  nonempty : ∀ group ∈ cohorts, group.2 ≠ []
  owner : ∀ group ∈ cohorts, group.2 = records.filter (·.event.compressionCohort = group.1)

theorem pushView_perm (view : IngestRecordView Metadata) (cohorts : List (Cohort Metadata)) :
    ((pushView view cohorts).flatMap (·.2)).Perm (cohorts.flatMap (·.2) ++ [view]) := by
  induction cohorts with
  | nil => exact Perm.refl _
  | cons group rest ih =>
    unfold pushView
    split
    · show (group.2 ++ [view] ++ rest.flatMap (·.2)).Perm (group.2 ++ rest.flatMap (·.2) ++ [view])
      rw [append_assoc, append_assoc]
      exact perm_append_comm.append_left group.2
    · split
      · exact perm_append_comm
      · show (group.2 ++ (pushView view rest).flatMap (·.2)).Perm
          (group.2 ++ rest.flatMap (·.2) ++ [view])
        rw [append_assoc]
        exact ih.append_left group.2

section

variable {cohorts : List (Cohort Metadata)}
  (sorted : cohorts.Pairwise fun left right => left.1 < right.1)
include sorted

/-- A group after a push is an old one of another cohort, or the one that the view went to. -/
theorem mem_pushView (h : group ∈ pushView view cohorts) :
    (group ∈ cohorts ∧ group.1 ≠ view.event.compressionCohort) ∨
        (group.1 = view.event.compressionCohort ∧
        ((∃ recs, (group.1, recs) ∈ cohorts ∧ group.2 = recs ++ [view]) ∨
          (group.2 = [view] ∧ ∀ other ∈ cohorts, other.1 ≠ group.1))) := by
  induction cohorts with
  | nil =>
    cases mem_singleton.mp h
    exact Or.inr ⟨rfl, Or.inr ⟨rfl, nofun⟩⟩
  | cons first rest ih =>
    obtain ⟨below, sortedRest⟩ := pairwise_cons.mp sorted
    unfold pushView at h
    split at h
    · next same =>
      cases h with
      | head => exact Or.inr ⟨same.symm, Or.inl ⟨first.2, .head _, rfl⟩⟩
      | tail _ mem =>
        refine Or.inl ⟨.tail _ mem, ?_⟩
        rw [same]
        exact (UInt64.ne_of_lt (below group mem)).symm
    · next other =>
      split at h
      · next less =>
        -- the new group comes before all others, which have greater cohorts
        have greater : ∀ group ∈ first :: rest, view.event.compressionCohort < group.1 :=
          forall_mem_cons.mpr ⟨less, fun group mem => UInt64.lt_trans less (below group mem)⟩
        cases h with
        | head =>
          refine Or.inr ⟨rfl, Or.inr ⟨rfl, ?_⟩⟩
          intro group mem
          exact (UInt64.ne_of_lt (greater group mem)).symm
        | tail _ mem => exact Or.inl ⟨mem, (UInt64.ne_of_lt (greater group mem)).symm⟩
      · cases h with
        | head => exact Or.inl ⟨.head _, fun eq => other eq.symm⟩
        | tail _ mem =>
          obtain ⟨mem, ne⟩ | ⟨eq, ⟨recs, mem, pushed⟩ | ⟨single, fresh⟩⟩ := ih sortedRest mem
          · exact Or.inl ⟨.tail _ mem, ne⟩
          · exact Or.inr ⟨eq, Or.inl ⟨recs, .tail _ mem, pushed⟩⟩
          · exact Or.inr ⟨eq, Or.inr ⟨single, forall_mem_cons.mpr
              ⟨fun same => other (eq.symm.trans same.symm), fresh⟩⟩⟩

theorem pushView_sorted : (pushView view cohorts).Pairwise fun left right => left.1 < right.1 := by
  induction cohorts with
  | nil => exact pairwise_singleton _ _
  | cons first rest ih =>
    obtain ⟨below, sortedRest⟩ := pairwise_cons.mp sorted
    unfold pushView
    split
    · exact pairwise_cons.mpr ⟨below, sortedRest⟩
    · next other =>
      split
      · next less =>
        exact pairwise_cons.mpr
          ⟨forall_mem_cons.mpr ⟨less, fun group mem => UInt64.lt_trans less (below group mem)⟩,
            sorted⟩
      · next notLess =>
        refine pairwise_cons.mpr ⟨?_, ih sortedRest⟩
        intro group mem
        obtain ⟨mem, -⟩ | ⟨eq, -⟩ := mem_pushView sortedRest mem
        · exact below group mem
        · rw [eq]
          exact UInt64.lt_of_le_of_ne (UInt64.not_lt.mp notLess) fun same => other same.symm

end

variable {recs : List (IngestRecordView Metadata)}

theorem Grouped.push (h : Grouped recs cohorts) (view : IngestRecordView Metadata) :
    Grouped (recs ++ [view]) (pushView view cohorts) := by
  have kinds := fun (group : Cohort Metadata) (mem : group ∈ pushView view cohorts) =>
    mem_pushView h.sorted mem
  refine ⟨pushView_sorted h.sorted, (pushView_perm view cohorts).trans (h.perm.append_right [view]),
    ?_, ?_⟩
  · intro group mem
    obtain ⟨old, -⟩ | ⟨-, ⟨others, -, pushed⟩ | ⟨single, -⟩⟩ := kinds group mem
    · exact h.nonempty group old
    · rw [pushed]
      exact append_ne_nil_of_right_ne_nil _ (cons_ne_nil _ _)
    · rw [single]
      exact cons_ne_nil _ _
  · intro group mem
    rw [filter_append]
    have taken : group.1 = view.event.compressionCohort →
        [view].filter (·.event.compressionCohort = group.1) = [view] := by
      intro eq
      simp [eq]
    obtain ⟨old, ne⟩ | ⟨eq, ⟨others, old, pushed⟩ | ⟨single, fresh⟩⟩ := kinds group mem
    · have left : [view].filter (·.event.compressionCohort = group.1) = [] := by
        simp [ne.symm]
      rw [← h.owner group old, left, append_nil]
    · rw [pushed, ← h.owner _ old, taken eq]
    · -- a record of this cohort would be in a group of this cohort, and there is none
      have none : recs.filter (·.event.compressionCohort = group.1) = [] := by
        apply filter_eq_nil_iff.mpr
        intro record mem same
        obtain ⟨other, placed, held⟩ := mem_flatMap.mp (h.perm.mem_iff.mpr mem)
        rw [h.owner other placed] at held
        have cohort := of_decide_eq_true (mem_filter.mp held).2
        exact fresh other placed (cohort.symm.trans (of_decide_eq_true same))
      rw [single, none, nil_append, taken eq]

theorem groupCohorts_grouped (recs : List (IngestRecordView Metadata)) :
    Grouped recs (groupCohorts recs) := by
  induction recs using reverseRecOn with
  | nil => exact ⟨List.Pairwise.nil, Perm.nil, nofun, nofun⟩
  | append_singleton recs view ih =>
    unfold groupCohorts
    rw [foldl_append]
    exact ih.push view

/-- One group for all records, if they are of one cohort. -/
theorem single_grouped (nonempty : recs ≠ [])
    (same : ∀ view ∈ recs, view.event.compressionCohort = cohort) :
    Grouped recs [(cohort, recs)] := by
  refine ⟨pairwise_singleton _ _, ?_, ?_, ?_⟩
  · show (recs ++ []).Perm recs
    rw [append_nil]
  · intro group mem
    cases mem_singleton.mp mem
    exact nonempty
  · intro group mem
    cases mem_singleton.mp mem
    symm
    apply filter_eq_self.mpr
    intro view mem
    exact decide_eq_true (same view mem)

/-! ## Timestamps -/

theorem foldl_min_le (times : List UInt64) (init : UInt64) : times.foldl min init ≤ init := by
  induction times generalizing init with
  | nil => exact UInt64.le_refl init
  | cons first rest ih => exact UInt64.le_trans (ih (min init first)) Std.min_le_left

theorem le_foldl_max (times : List UInt64) (init : UInt64) : init ≤ times.foldl max init := by
  induction times generalizing init with
  | nil => exact UInt64.le_refl init
  | cons first rest ih =>
    refine UInt64.le_trans ?_ (ih (max init first))
    rw [UInt64.max_def]
    split
    · assumption
    · exact UInt64.le_refl init

theorem minTimestamp_le_maxTimestamp (recs : List (IngestRecordView Metadata)) :
    minTimestamp recs ≤ maxTimestamp recs := by
  cases recs with
  | nil => exact UInt64.le_refl 0
  | cons first rest => exact UInt64.le_trans (foldl_min_le _ _) (le_foldl_max _ _)

/-! ## Structural blocks -/

theorem reads_readVarint (h : value < 2 ^ 64) :
    Reads readVarint (writeVarint value) value := Varint.reads_read h

theorem reads_readBytes (h : value.length < 2 ^ 64) : Reads readBytes (appendBytes value) value :=
  (reads_readVarint h).bind (Reads.take rfl)

theorem reads_readSections (h : (sectionBytes lanes embeddedIndex).length < 2 ^ 64) :
    Reads readSections (sectionBytes lanes embeddedIndex) (lanes, embeddedIndex) := by
  simp only [sectionBytes, appendBytes, length_append] at h
  refine (reads_readBytes (by omega)).bind ?_
  refine (reads_readBytes (by omega)).bind ?_
  refine (reads_readBytes (by omega)).bind ?_
  refine (reads_readBytes (by omega)).bind ?_
  refine (reads_readBytes (by omega)).bind ?_
  refine (reads_readBytes (by omega)).bind ?_
  refine (reads_readBytes (by omega)).bind ?_
  exact (reads_readBytes (by omega)).map _

/-- A frame gives back the records that were put into it. -/
def FrameRoundTrips (codec : StructuralCodec Metadata Index)
    (records : List (IngestRecordView Metadata)) : Prop :=
  ∀ block, encodeIndexedStructuralRecords codec records = .ok block →
    decodeStructuralBlock codec block.structural = .ok (records.map (·.record))

section Blocks

variable {codec : StructuralCodec Metadata Index}

section

variable (h : encodeIndexedStructuralRecords codec recs = .ok block) (few : recs.length < 2 ^ 64)
  (small : block.structural.length < 2 ^ 64)
include h few small

/-- The bytes of a block, as its readers see them. -/
theorem encodeIndexedStructuralRecords_reads : ∃ lanes secs, block.structural.take 4 = blockMagic ∧
      readVarint (block.structural.drop 4) = .ok (recs.length, secs) ∧
      readSections secs = .ok ((lanes, block.embeddedIndex), []) := by
  obtain ⟨⟨lanes, embeddedIndex⟩, -, h⟩ := bind_eq_ok.mp h
  cases h
  refine ⟨lanes, sectionBytes lanes embeddedIndex, rfl, reads_readVarint few _, Reads.run ?_⟩
  apply reads_readSections
  simp only [length_append] at small
  omega

/-- The embedded index alone and the block hold the same index. -/
theorem decodeEmbeddedFrameIndex_eq : decodeEmbeddedFrameIndex codec block.structural =
      decodeEmbeddedFrameIndexSection codec block.embeddedIndex recs.length := by
  obtain ⟨lanes, secs, magic, counted, read⟩ := encodeIndexedStructuralRecords_reads h few small
  have found : structuralSections block.structural = .ok (recs.length, block.embeddedIndex) := by
    refine ensure_bind_ok (decide_eq_true magic) ?_
    refine bind_ok counted ?_
    exact bind_ok read rfl
  unfold decodeEmbeddedFrameIndex
  rw [found]
  rfl

end

/-- A block that decodes has an index that decodes. -/
theorem FrameRoundTrips.index (back : FrameRoundTrips codec recs)
    (h : encodeIndexedStructuralRecords codec recs = .ok block)
    (few : recs.length < 2 ^ 64) (small : block.structural.length < 2 ^ 64) :
    ∃ ix, decodeEmbeddedFrameIndexSection codec block.embeddedIndex recs.length = .ok ix := by
  obtain ⟨lanes, secs, -, counted, read⟩ := encodeIndexedStructuralRecords_reads h few small
  obtain ⟨-, -, dec⟩ := bind_eq_ok.mp (back block h)
  obtain ⟨_, counted', dec⟩ := bind_eq_ok.mp dec
  cases counted.symm.trans counted'
  obtain ⟨-, -, dec⟩ := bind_eq_ok.mp dec
  obtain ⟨_, read', dec⟩ := bind_eq_ok.mp dec
  cases read.symm.trans read'
  obtain ⟨-, -, dec⟩ := bind_eq_ok.mp dec
  obtain ⟨ix, found, -⟩ := bind_eq_ok.mp dec
  exact ⟨ix, found⟩

end Blocks

/-! ## Frames -/

/-- What packing made of a cohort, with the index that its frame holds. -/
structure Frame (Metadata Index : Type) where
  group : Cohort Metadata
  block : IndexedStructuralBlock
  compressed : List UInt8
  index : Index

namespace Frame

variable (backend : Backend) (frame : Frame Metadata Index)

/-- The group as the payload has it. -/
def durable : IngestGroup :=
  ⟨frame.group.1, frame.group.2.length, frame.block.structural.length,
    payloadChecksum backend frame.compressed, minTimestamp frame.group.2,
      maxTimestamp frame.group.2,
    frame.compressed⟩

/-- The group as the transient context has it. -/
def live : TransientGroup :=
  ⟨frame.group.1, frame.group.2.length, frame.block.structural.length, frame.block.embeddedIndex⟩

def encoded : List UInt8 :=
  toLE 8 frame.group.1.toNat ++
    (toLE 4 frame.group.2.length ++ (toLE 4 frame.block.structural.length ++
    (toLE 4 frame.compressed.length ++ (toLE 4 (payloadChecksum backend frame.compressed) ++
      (toLE 8 (minTimestamp frame.group.2).toNat ++ (toLE 8 (maxTimestamp frame.group.2).toNat ++
        frame.compressed))))))

def transient : List UInt8 :=
  toLE 8 frame.group.1.toNat ++
    (toLE 4 frame.group.2.length ++ (toLE 4 frame.block.structural.length ++
    (toLE 4 frame.block.embeddedIndex.length ++ frame.block.embeddedIndex)))

/-- The frame as queries see it. -/
def indexed : IndexedIngestFrame Index :=
  ⟨0, frame.group.1, frame.group.2.length, frame.block.structural.length,
    minTimestamp frame.group.2, maxTimestamp frame.group.2, frame.compressed, frame.index⟩

/-- What is known about a frame that was packed. -/
structure Ok (codec : StructuralCodec Metadata Index) : Prop where
  encodes : encodeIndexedStructuralRecords codec frame.group.2 = .ok frame.block
  decodes : decodeStructuralBlock codec frame.block.structural = .ok (frame.group.2.map (·.record))
  indexes : decodeEmbeddedFrameIndexSection codec frame.block.embeddedIndex frame.group.2.length =
    .ok frame.index
  small : frame.block.structural.length ≤ maxIngestStructuralBytes
  compresses : backend.zstd.compress frame.block.structural = .ok frame.compressed
  records_lt : frame.group.2.length < 2 ^ 32
  index_lt : frame.block.embeddedIndex.length < 2 ^ 32
  compressed_lt : frame.compressed.length < 2 ^ 32

variable {backend frame} {codec : StructuralCodec Metadata Index}

namespace Ok

section

variable (ok : frame.Ok backend codec)
include ok

theorem structural_lt : frame.block.structural.length < 2 ^ 32 := by
  have small := ok.small
  unfold maxIngestStructuralBytes at small
  omega

theorem structural_ne_zero : frame.block.structural.length ≠ 0 := by
  obtain ⟨_, -, h⟩ := bind_eq_ok.mp ok.encodes
  have eq := Except.ok.inj h
  rw [← eq]
  exact Nat.succ_ne_zero _

theorem recordCount : codec.recordCount frame.index = frame.group.2.length := by
  obtain ⟨-, -, h⟩ := bind_eq_ok.mp ok.indexes
  obtain ⟨ix, -, h⟩ := bind_eq_ok.mp h
  obtain ⟨_, checked, h⟩ := bind_eq_ok.mp h
  cases h
  exact of_decide_eq_true (ensure_eq_ok.mp checked)

theorem reads_nextGroup : Reads nextGroup (frame.encoded backend) (frame.durable backend) := by
  have checksum : payloadChecksum backend frame.compressed < 256 ^ 4 := by
    have bound := ofLE_lt ((backend.digest frame.compressed).take 4)
    rwa [length_take, backend.length_digest] at bound
  refine (Reads.uint frame.group.1.toNat_lt).bind ?_
  refine (Reads.uint ok.records_lt).bind ?_
  refine (Reads.uint ok.structural_lt).bind ?_
  refine (Reads.uint ok.compressed_lt).bind ?_
  refine (Reads.uint checksum).bind ?_
  refine (Reads.uint (minTimestamp frame.group.2).toNat_lt).bind ?_
  refine (Reads.uint (maxTimestamp frame.group.2).toNat_lt).bind ?_
  unfold durable
  convert (Reads.take rfl).map _ using 1
  simp only [UInt64.ofNat_toNat]

theorem reads_nextTransientGroup : Reads nextTransientGroup frame.transient frame.live := by
  refine (Reads.uint frame.group.1.toNat_lt).bind ?_
  refine (Reads.uint ok.records_lt).bind ?_
  refine (Reads.uint ok.structural_lt).bind ?_
  refine (Reads.uint ok.index_lt).bind ?_
  unfold live
  convert (Reads.take rfl).map _ using 1
  simp only [UInt64.ofNat_toNat]

theorem groupShape (nonempty : frame.group.2 ≠ []) : groupShape (frame.durable backend) = true := by
  have ne := ok.structural_ne_zero
  have small := ok.small
  have ordered := minTimestamp_le_maxTimestamp frame.group.2
  have some : frame.group.2.length ≠ 0 := fun eq => nonempty (length_eq_zero_iff.mp eq)
  simp only [IngestPack.groupShape, durable, and_eq_true]
  exact ⟨⟨⟨decide_eq_true some, decide_eq_true ne⟩, decide_eq_true small⟩, decide_eq_true ordered⟩

theorem validateGroup (nonempty : frame.group.2 ≠ []) :
    validateGroup backend (frame.durable backend) = .ok () := by
  apply ensure_eq_ok.mpr
  rw [ok.groupShape nonempty]
  exact decide_eq_true rfl

theorem decompressGroup :
    decompressGroup backend (frame.durable backend) = .ok frame.block.structural := by
  refine bind_ok (compressing_eq_ok.mpr (backend.zstd.lossless _ _ _ ok.compresses le_rfl)) ?_
  exact ensure_bind_ok (decide_eq_true rfl) rfl

/-- The events of a frame come back with their ordinals. -/
theorem decodeGroup (nonempty : frame.group.2 ≠ [])
    (owner : ∀ view ∈ frame.group.2, view.event.compressionCohort = frame.group.1)
    (inRange : ∀ view ∈ frame.group.2, view.ordinal.toNat < want) :
    decodeGroup codec backend want (frame.durable backend) () =
      .ok (frame.group.2.map fun view => (view.ordinal.toNat, view.event), ()) := by
  have evs : (frame.group.2.map (·.record)).mapM (decodeEvent want frame.group.1) =
      .ok (frame.group.2.map fun view => (view.ordinal.toNat, view.event)) := by
    refine mapM_eq_ok.mpr (forall₂_map_left_iff.mpr (forall₂_map_right_iff.mpr
      (forall₂_same.mpr fun view mem => ?_)))
    have offset : view.record.offset.toNat = view.ordinal.toNat := UInt32.toNat_toUInt64 _
    refine ensure_bind_ok (decide_eq_true view.ordinal.toNat_lt) ?_
    refine ensure_bind_ok (decide_eq_true (inRange view mem)) ?_
    rw [← owner view mem]
    rfl
  refine bind_ok (ok.validateGroup nonempty) ?_
  refine bind_ok ok.decompressGroup ?_
  refine bind_ok ok.decodes ?_
  refine ensure_bind_ok (decide_eq_true (length_map _)) ?_
  exact bind_ok evs rfl

/-- The index of a live frame. -/
theorem groupIndex_some (rest) :
    groupIndex codec backend (frame.durable backend) (some (frame.transient ++ rest)) =
      .ok (frame.index, some rest) := by
  refine bind_ok (ok.reads_nextTransientGroup rest) ?_
  refine ensure_bind_ok (by simp [durable, live]) ?_
  exact bind_ok ok.indexes rfl

/-- The index of a recovered frame is the same. -/
theorem groupIndex_none :
    groupIndex codec backend (frame.durable backend) none = .ok (frame.index, none) := by
  have recs := ok.records_lt
  have structural := ok.structural_lt
  have section' := decodeEmbeddedFrameIndex_eq ok.encodes (by omega) (by omega)
  refine bind_ok ok.decompressGroup ?_
  exact bind_ok (section'.trans ok.indexes) rfl

/-- Whether the checksum is looked at or not, the frame is formed from the index that was found. -/
theorem indexGroup (nonempty : frame.group.2 ≠ []) (validate) {transient rest : Option (List UInt8)}
    (found : groupIndex codec backend (frame.durable backend) transient = .ok (frame.index, rest)) :
    indexGroup codec backend validate (frame.durable backend) transient =
      .ok (frame.indexed, rest) := by
  have count := ok.recordCount
  cases validate
  · refine ensure_bind_ok (ok.groupShape nonempty) (bind_ok found ?_)
    refine ensure_bind_ok (decide_eq_true count) ?_
    rw [count]
    rfl
  · refine bind_ok (ok.validateGroup nonempty) (bind_ok found ?_)
    refine ensure_bind_ok (decide_eq_true count) ?_
    rw [count]
    rfl

end

end Ok

end Frame

/-! ## Packs -/

section Packs

theorem appendIngestGroup_eq_ok
    (h : appendIngestGroup codec backend group = .ok appended)
    (back : FrameRoundTrips codec group.2) :
    ∃ frame : Frame Metadata Index, frame.group = group ∧ frame.Ok backend codec ∧
      appended = ⟨frame.encoded backend, frame.transient⟩ := by
  obtain ⟨block, encodes, h⟩ := bind_eq_ok.mp h
  obtain ⟨_, small, h⟩ := bind_eq_ok.mp h
  obtain ⟨zip, compresses, h⟩ := bind_eq_ok.mp h
  obtain ⟨_, recs, h⟩ := bind_eq_ok.mp h
  obtain ⟨_, structural, h⟩ := bind_eq_ok.mp h
  obtain ⟨_, ix, h⟩ := bind_eq_ok.mp h
  obtain ⟨_, compressedBytes, h⟩ := bind_eq_ok.mp h
  obtain ⟨recordsLt, rfl⟩ := lengthBytes_eq_ok.mp recs
  obtain ⟨structuralLt, rfl⟩ := lengthBytes_eq_ok.mp structural
  obtain ⟨indexLt, rfl⟩ := lengthBytes_eq_ok.mp ix
  obtain ⟨compressedLt, rfl⟩ := lengthBytes_eq_ok.mp compressedBytes
  cases h
  obtain ⟨ix, indexes⟩ := back.index encodes (by omega) (by omega)
  exact ⟨⟨group, block, zip, ix⟩, rfl,
    ⟨encodes, back block encodes, indexes, of_decide_eq_true (ensure_eq_ok.mp small),
      compressing_eq_ok.mp compresses, recordsLt, indexLt, compressedLt⟩, rfl⟩

theorem appendIngestGroups_eq_ok (h : appendIngestGroups codec backend cohorts = .ok appended)
    (back : ∀ group ∈ cohorts, FrameRoundTrips codec group.2) :
    ∃ frames : List (Frame Metadata Index), frames.map (·.group) = cohorts ∧
      (∀ frame ∈ frames, frame.Ok backend codec) ∧
      appended = ⟨frames.flatMap (·.encoded backend), frames.flatMap (·.transient)⟩ := by
  induction cohorts generalizing appended with
  | nil =>
    cases h
    exact ⟨[], rfl, nofun, rfl⟩
  | cons group rest ih =>
    obtain ⟨first, done, h⟩ := bind_eq_ok.mp h
    obtain ⟨later, doneLater, h⟩ := bind_eq_ok.mp h
    cases h
    obtain ⟨frame, rfl, ok, rfl⟩ := appendIngestGroup_eq_ok done (back group mem_cons_self)
    obtain ⟨frames, rfl, oks, rfl⟩ := ih doneLater (forall_mem_cons.mp back).2
    exact ⟨frame :: frames, rfl, forall_mem_cons.mpr ⟨ok, oks⟩, rfl⟩

/-- The loop over the groups.  The state is what the groups still to come have put into it. -/
theorem reads_readGroups (ok : ∀ frame ∈ frames, frame.Ok backend codec)
    (state : List (Frame Metadata Index) → σ) (res : Frame Metadata Index → α)
    (step : ∀ frame ∈ frames, ∀ rest,
      process (frame.durable backend) (state (frame :: rest)) = .ok (res frame, state rest)) :
    Reads (readGroups process frames.length (state frames)) (frames.flatMap (·.encoded backend))
      (frames.map (fun frame => (frame.durable backend, res frame)), state []) := by
  induction frames with
  | nil => exact Reads.pure _
  | cons frame frames ih =>
    obtain ⟨first, others⟩ := forall_mem_cons.mp ok
    obtain ⟨stepFirst, stepOthers⟩ := forall_mem_cons.mp step
    refine first.reads_nextGroup.bind (Reads.lift (stepFirst frames) ?_)
    exact (ih others stepOthers).map fun done =>
      ((frame.durable backend, res frame) :: done.1, done.2)

/-- What is known about a pack that was prepared. -/
structure Prepared (codec : StructuralCodec Metadata Index) (backend : Backend) (recordCount : Nat)
    (frames : List (Frame Metadata Index)) (prepared : PreparedIngestPack) : Prop where
  frames_ok : ∀ frame ∈ frames, frame.Ok backend codec
  record_count_lt : recordCount < 2 ^ 32
  group_count_lt : frames.length < 2 ^ 16
  payload : prepared.payload = packMagic ++ (toLE 4 recordCount ++ (toLE 2 frames.length ++
    ([0, 0] ++ frames.flatMap (·.encoded backend))))
  transientContext : prepared.transientContext = transientMagic ++ (toLE 2 frames.length ++
    ([0, 0] ++ frames.flatMap (·.transient)))

theorem prepareGroupedIngestPack_eq_ok
    (h : prepareGroupedIngestPack codec backend recordCount cohorts = .ok prep)
    (back : ∀ group ∈ cohorts, FrameRoundTrips codec group.2) :
    ∃ frames : List (Frame Metadata Index), frames.map (·.group) = cohorts ∧
      Prepared codec backend recordCount frames prep := by
  obtain ⟨_, counted, h⟩ := bind_eq_ok.mp h
  obtain ⟨_, few, h⟩ := bind_eq_ok.mp h
  obtain ⟨appended, done, h⟩ := bind_eq_ok.mp h
  obtain ⟨-, -, h⟩ := bind_eq_ok.mp h
  obtain ⟨-, -, h⟩ := bind_eq_ok.mp h
  cases h
  obtain ⟨fits, rfl⟩ := lengthBytes_eq_ok.mp counted
  obtain ⟨frames, rfl, ok, rfl⟩ := appendIngestGroups_eq_ok done back
  have groups : (frames.map (·.group)).length = frames.length := length_map _
  rw [groups] at few
  refine ⟨frames, rfl, ok, fits, of_decide_eq_true (ensure_eq_ok.mp few), ?_, ?_⟩
  · show packMagic ++ _ = _
    rw [groups]
  · show transientMagic ++ _ = _
    rw [groups]

namespace Prepared

variable {frames : List (Frame Metadata Index)}

theorem openPack (h : Prepared codec backend recordCount frames prep) :
    openPack prep.payload recordCount = .ok
      (frames.length, frames.flatMap (·.encoded backend)) := by
  rw [h.payload]
  refine ensure_bind_ok ?_ ?_
  · simp only [and_eq_true]
    refine ⟨⟨decide_eq_true ?_, rfl⟩, rfl⟩
    simp only [length_append, length_toLE, packMagic, length_cons, length_nil]
    omega
  apply bind_eq_ok.mpr
  have counted : ofLE (toLE 4 recordCount) = recordCount := ofLE_toLE h.record_count_lt
  have groups : ofLE (toLE 2 frames.length) = frames.length := ofLE_toLE h.group_count_lt
  refine ⟨(), ensure_eq_ok.mpr (decide_eq_true counted), ?_⟩
  show Except.ok (ofLE (toLE 2 frames.length), _) = _
  rw [groups]
  rfl

theorem openTransient (h : Prepared codec backend recordCount frames prep) :
    openTransient prep.transientContext frames.length = .ok (frames.flatMap (·.transient)) := by
  rw [h.transientContext]
  refine ensure_bind_ok ?_ ?_
  · simp only [and_eq_true]
    refine ⟨⟨decide_eq_true ?_, rfl⟩, rfl⟩
    simp only [length_append, length_toLE, transientMagic, length_cons, length_nil]
    omega
  apply bind_eq_ok.mpr
  have groups : ofLE (toLE 2 frames.length) = frames.length := ofLE_toLE h.group_count_lt
  exact ⟨(), ensure_eq_ok.mpr (decide_eq_true groups), rfl⟩

/-- The totals are right if the groups partition the records. -/
theorem finishPack (grouped : Grouped recs (frames.map (·.group))) :
    finishPack recs.length frames.length (frames.map (·.durable backend)) [] = .ok () := by
  apply ensure_eq_ok.mpr
  have total : ((frames.map (·.durable backend)).map (·.recordCount)).sum = recs.length := by
    rw [← grouped.perm.length_eq, length_flatMap, map_map, map_map]
    rfl
  have groups : 0 < recs.length → frames.length ≠ 0 := by
    intro some none
    have empty : frames = [] := length_eq_zero_iff.mp none
    have perm := grouped.perm.length_eq
    rw [empty] at perm
    exact absurd perm (Nat.ne_of_lt some)
  rw [total, and_eq_true, and_eq_true]
  refine ⟨⟨rfl, decide_eq_true rfl⟩, ?_⟩
  by_cases some : 0 < recs.length
  · simp [groups some]
  · simp [some]

/-- The frames are the same, with the transient context and without it. -/
theorem frames_eq (h : Prepared codec backend recordCount frames prep)
    (length : recs.length = recordCount)
    (grouped : Grouped recs (frames.map (·.group))) (validate : Bool)
    (given : context = none ∨ context = some prep.transientContext) :
    decodeIndexedIngestFramesInner codec backend prep.payload context recordCount validate =
      .ok (frames.map (·.indexed)) := by
  have nonempty : ∀ frame ∈ frames, frame.group.2 ≠ [] := fun frame mem =>
    grouped.nonempty _ (mem_map_of_mem mem)
  have finished : IngestPack.finishPack recordCount frames.length
      ((frames.map fun frame => (frame.durable backend, frame.indexed)).map (·.1)) [] = .ok () := by
    rw [map_map, ← length]
    exact finishPack grouped
  have got : (frames.map fun frame => (frame.durable backend, frame.indexed)).map (·.2) =
      frames.map (·.indexed) := by
    rw [map_map]
    rfl
  refine bind_ok h.openPack ?_
  obtain rfl | rfl := given
  · refine bind_ok (a := none) rfl ?_
    refine bind_ok ((reads_readGroups h.frames_ok (fun _ => none) (·.indexed) ?_).run) ?_
    · intro frame mem rest
      have ok := h.frames_ok frame mem
      exact ok.indexGroup (nonempty frame mem) validate ok.groupIndex_none
    refine bind_ok finished ?_
    exact congrArg Except.ok got
  · have kept :
        (some prep.transientContext).filter (fun context => context.take 4 = transientMagic) =
        some prep.transientContext := by
      rw [h.transientContext]
      rfl
    rw [kept]
    refine bind_ok (a := some (frames.flatMap (·.transient))) ?_ ?_
    · show (IngestPack.openTransient prep.transientContext frames.length >>= fun rest =>
        pure (some rest)) = _
      rw [h.openTransient]
      rfl
    refine bind_ok ((reads_readGroups h.frames_ok (fun rest => some (rest.flatMap (·.transient)))
      (·.indexed) ?_).run) ?_
    · intro frame mem rest
      have ok := h.frames_ok frame mem
      exact ok.indexGroup (nonempty frame mem) validate (ok.groupIndex_some _)
    refine bind_ok finished ?_
    exact congrArg Except.ok got

end Prepared

/-! ## Events -/

variable {evs : List (OtlpLogEvent Metadata)}

theorem length_views (evs : List (OtlpLogEvent Metadata)) : (views evs).length = evs.length := by
  rw [views, length_map, length_zipIdx]

/-- The ordinals of the views are the positions of the events. -/
theorem views_ordinals (few : evs.length < 2 ^ 32) :
    (views evs).map (fun view => (view.ordinal.toNat, view.event)) =
      evs.zipIdx.map fun entry => (entry.2, entry.1) := by
  unfold views
  rw [map_map]
  apply map_congr_left
  rintro ⟨ev, place⟩ mem
  have lt := (mem_zipIdx' mem).1
  show ((UInt32.ofNat place).toNat, ev) = (place, ev)
  rw [UInt32.toNat_ofNat_of_lt' (Nat.lt_trans lt few)]

theorem map_fst_swap_zipIdx (evs : List (OtlpLogEvent Metadata)) :
    (evs.zipIdx.map fun entry => (entry.2, entry.1)).map (·.1) = range evs.length := by
  rw [map_map, range_eq_range']
  exact zipIdx_map_snd 0 evs

/-- Sorting by the ordinals restores the order of the pack. -/
theorem insertionSort_ordinals {scattered : List (Nat × OtlpLogEvent Metadata)}
    (perm : scattered.Perm (evs.zipIdx.map fun entry => (entry.2, entry.1))) :
    scattered.insertionSort (fun left right => left.1 ≤ right.1) =
      evs.zipIdx.map fun entry => (entry.2, entry.1) := by
  have places := map_fst_swap_zipIdx evs
  generalize evs.zipIdx.map (fun entry => (entry.2, entry.1)) = entries at perm places ⊢
  have increasing : entries.Pairwise fun left right => left.1 < right.1 :=
    pairwise_map.mp (places ▸ pairwise_lt_range)
  have nodup : (entries.map (·.1)).Nodup := places ▸ nodup_range
  let byOrdinal := SortBy.insertion fun entry : Nat × OtlpLogEvent Metadata => entry.1
  have sorted := (byOrdinal.perm scattered).trans perm
  refine Perm.eq_of_pairwise ?_ (byOrdinal.sorted scattered) (increasing.imp Nat.le_of_lt) sorted
  -- two entries with one ordinal are the same entry
  intro left right mem mem' le ge
  exact inj_on_of_nodup_map nodup (sorted.mem_iff.mp mem) mem' (Nat.le_antisymm le ge)

theorem Prepared.events_eq {frames : List (Frame Metadata Index)}
    (h : Prepared codec backend evs.length frames prep)
    (grouped : Grouped (views evs) (frames.map (·.group))) :
    decodeIngestPack codec backend prep.payload = .ok evs := by
  have want : ofLE ((prep.payload.drop 4).take 4) = evs.length := by
    rw [h.payload]
    have counted : ofLE (toLE 4 evs.length) = evs.length := ofLE_toLE h.record_count_lt
    exact counted
  have long : 8 ≤ prep.payload.length := by
    rw [h.payload]
    simp only [length_append, length_toLE, packMagic, length_cons, length_nil]
    omega
  have inRange : ∀ view ∈ views evs, view.ordinal.toNat < evs.length := by
    intro view mem
    have mem' := mem_map_of_mem (f := fun view => view.ordinal.toNat) mem
    have ords := congrArg (map Prod.fst) (views_ordinals h.record_count_lt)
    rw [map_fst_swap_zipIdx, map_map] at ords
    exact mem_range.mp (ords ▸ mem')
  have dec : ∀ frame ∈ frames, ∀ _ : List (Frame Metadata Index),
      decodeGroup codec backend evs.length (frame.durable backend) () =
        .ok (frame.group.2.map fun view => (view.ordinal.toNat, view.event), ()) := by
    intro frame mem _
    have member := mem_map_of_mem (f := Frame.group) mem
    have owner := grouped.owner _ member
    refine (h.frames_ok frame mem).decodeGroup (grouped.nonempty _ member) ?_ ?_
    · intro view held
      rw [owner] at held
      exact of_decide_eq_true (mem_filter.mp held).2
    · intro view held
      rw [owner] at held
      exact inRange view (mem_filter.mp held).1
  have read := (reads_readGroups h.frames_ok (fun _ => ())
    (fun frame => frame.group.2.map fun view => (view.ordinal.toNat, view.event)) dec).run
  -- the events of the groups are those of the pack, in another order
  have perm : ((frames.map fun frame => (frame.durable backend,
      frame.group.2.map fun view => (view.ordinal.toNat, view.event))).flatMap (·.2)).Perm
      (evs.zipIdx.map fun entry => (entry.2, entry.1)) := by
    rw [flatMap_map, ← views_ordinals h.record_count_lt]
    have mapped := grouped.perm.map fun view => (view.ordinal.toNat, view.event)
    rwa [map_flatMap, flatMap_map] at mapped
  unfold decodeIngestPack
  rw [want]
  refine ensure_bind_ok (decide_eq_true long) ?_
  refine bind_ok h.openPack ?_
  refine bind_ok read ?_
  refine bind_ok (a := ()) ?_ ?_
  · rw [map_map, ← length_views]
    exact Prepared.finishPack grouped
  dsimp only
  rw [insertionSort_ordinals perm, map_fst_swap_zipIdx, map_map]
  exact ensure_bind_ok (by simp) (congrArg Except.ok (zipIdx_map_fst 0 evs))

/-- Packing partitions the events by their cohorts, along either path. -/
theorem prepareIngestPack_grouped (h : prepareIngestPack codec backend evs = .ok prep) :
    ∃ cohorts, Grouped (views evs) cohorts ∧
      prepareGroupedIngestPack codec backend evs.length cohorts = .ok prep := by
  obtain ⟨-, -, h⟩ := bind_eq_ok.mp h
  split at h
  · next first found =>
    obtain ⟨head, all⟩ := Option.filter_eq_some_iff.mp found
    have nonempty : views evs ≠ [] := by
      intro none
      have empty : evs = [] := length_eq_zero_iff.mp (by rw [← length_views, none, length_nil])
      rw [empty] at head
      cases head
    have same : ∀ view ∈ views evs, view.event.compressionCohort = first.compressionCohort := by
      intro view mem
      obtain ⟨entry, at', rfl⟩ := mem_map.mp mem
      exact of_decide_eq_true (all_eq_true.mp all entry.1 (fst_mem_of_mem_zipIdx at'))
    refine ⟨_, single_grouped nonempty same, ?_⟩
    unfold prepareSingleCohortIngestPack at h
    rwa [length_views, isEmpty_eq_false_iff.mpr nonempty] at h
  · exact ⟨_, groupCohorts_grouped _, h⟩

/-- Demultiplexing: if every frame gives back its own records, then a pack gives back its events,
each once and in its place, with its cohort; and the frames that are indexed live, with the
transient context, are those that are rebuilt from the payload alone: one for each cohort, with the
records of it. -/
theorem decode_prepareIngestPack {evs : List (OtlpLogEvent Metadata)} {prep : PreparedIngestPack}
    (h : prepareIngestPack codec backend evs = .ok prep)
    (back : ∀ ev ∈ evs, FrameRoundTrips codec
      ((views evs).filter (·.event.compressionCohort = ev.compressionCohort))) :
    decodeIngestPack codec backend prep.payload = .ok evs ∧ ∃ frames : List (Frame Metadata Index),
      Grouped (views evs) (frames.map (·.group)) ∧ (∀ frame ∈ frames, frame.Ok backend codec) ∧
        decodeIndexedIngestFramesAfterValidation codec backend prep.payload
          (some prep.transientContext) evs.length = .ok (frames.map (·.indexed)) ∧
        decodeIndexedIngestFrames codec backend prep.payload
          (some prep.transientContext) evs.length = .ok (frames.map (·.indexed)) ∧
        decodeIndexedIngestFrames codec backend prep.payload none evs.length =
          .ok (frames.map (·.indexed)) := by
  obtain ⟨cohorts, grouped, packed⟩ := prepareIngestPack_grouped h
  have roundTrips : ∀ group ∈ cohorts, FrameRoundTrips codec group.2 := by
    intro group mem
    have owner := grouped.owner group mem
    obtain ⟨view, held⟩ := exists_mem_of_ne_nil _ (grouped.nonempty group mem)
    rw [owner] at held
    obtain ⟨shown, cohort⟩ := mem_filter.mp held
    obtain ⟨entry, at', rfl⟩ := mem_map.mp shown
    have trip := back entry.1 (fst_mem_of_mem_zipIdx at')
    have cohort : entry.1.compressionCohort = group.1 := of_decide_eq_true cohort
    rw [cohort] at trip
    rwa [owner]
  obtain ⟨frames, rfl, done⟩ := prepareGroupedIngestPack_eq_ok packed roundTrips
  refine ⟨done.events_eq grouped, frames, grouped, done.frames_ok, ?_, ?_, ?_⟩
  · exact done.frames_eq (length_views _) grouped false (Or.inr rfl)
  · exact done.frames_eq (length_views _) grouped true (Or.inr rfl)
  · exact done.frames_eq (length_views _) grouped true (Or.inl rfl)

end Packs

/-! ## An instance -/

/-- Two cohorts, interleaved. -/
def sampleEvents : List (OtlpLogEvent Unit) :=
  [⟨30, "b", [], (), 7⟩, ⟨10, "a", [], (), 4⟩, ⟨20, "c", [], (), 7⟩]

/-- Messages of one byte, with ordinals and timestamps of one byte; the index has the number of
records. -/
def sampleCodec : StructuralCodec Unit Nat where
  encodeLanes records := .ok (
    { offsets := records.map fun view => view.ordinal.toUInt8
      timestamps := records.map fun view => view.event.timestampUnixNanos.toUInt8
      templates := []
      bodies := records.flatMap fun view => view.event.message.toList.map fun char => char.toUInt8
      attributeTables := []
      fields := []
      typedMetadata := [] },
    [UInt8.ofNat records.length])
  decodeIndex
    | [count], _ => .ok count.toNat
    | _, _ => .error (invalid "index")
  recordCount := id
  decodeLanes lanes _ _ :=
      .ok ((lanes.offsets.zip (lanes.timestamps.zip lanes.bodies)).map fun entry =>
    ⟨entry.1.toUInt64, entry.2.1.toUInt64, String.ofList [Char.ofNat entry.2.2.toNat], [], ()⟩)

def sampleBackend : Backend where
  zstd := .stored
  digest contents := toLE 32 contents.length
  length_digest _ := length_toLE 32 _

/-- The events come back in their order, and a frame for each of the two cohorts, live and
rebuilt. -/
theorem decode_prepareIngestPack_sample :
    ∃ prep, prepareIngestPack sampleCodec sampleBackend sampleEvents = .ok prep ∧
      decodeIngestPack sampleCodec sampleBackend prep.payload = .ok sampleEvents ∧ ∃ frames,
        decodeIndexedIngestFramesAfterValidation sampleCodec sampleBackend prep.payload
          (some prep.transientContext) 3 = .ok frames ∧
        decodeIndexedIngestFrames sampleCodec sampleBackend prep.payload none 3 = .ok frames ∧
        frames.map (fun frame => (frame.cohort, frame.recordCount)) = [(4, 1), (7, 2)] := by
  have ok : (prepareIngestPack sampleCodec sampleBackend sampleEvents).isOk = true := by
    decide +kernel
  have back : ∀ ev ∈ sampleEvents, FrameRoundTrips sampleCodec
      ((views sampleEvents).filter (·.event.compressionCohort = ev.compressionCohort)) := by
    have dec : ∀ ev ∈ sampleEvents,
        (do decodeStructuralBlock sampleCodec (← encodeIndexedStructuralRecords sampleCodec
          ((views sampleEvents).filter
            (·.event.compressionCohort = ev.compressionCohort))).structural).toOption =
        some (((views sampleEvents).filter
          (·.event.compressionCohort = ev.compressionCohort)).map (·.record)) := by
      decide +kernel
    intro ev mem block h
    have done := dec ev mem
    rw [h] at done
    change (decodeStructuralBlock sampleCodec block.structural).toOption = _ at done
    cases res : decodeStructuralBlock sampleCodec block.structural with
    | error error =>
      rw [res] at done
      cases done
    | ok recs =>
      rw [res] at done
      exact congrArg Except.ok (Option.some.inj done)
  obtain ⟨prep, h⟩ := exists_of_isOk ok
  obtain ⟨events, frames, -, -, live, -, rebuilt⟩ := decode_prepareIngestPack h back
  have cohorts : (do
      let prep ← prepareIngestPack sampleCodec sampleBackend sampleEvents
      let frames ← decodeIndexedIngestFrames sampleCodec sampleBackend prep.payload none 3
      return frames.map fun frame : IndexedIngestFrame Nat =>
        (frame.cohort, frame.recordCount)).toOption = some [(4, 1), (7, 2)] := by
    decide +kernel
  rw [h] at cohorts
  change (decodeIndexedIngestFrames _ _ prep.payload none 3 >>= _).toOption = _ at cohorts
  rw [show decodeIndexedIngestFrames _ _ prep.payload none 3 = _ from rebuilt] at cohorts
  exact ⟨prep, h, events, _, live, rebuilt, Option.some.inj cohorts⟩

end ShardTelemetry.IngestPack
