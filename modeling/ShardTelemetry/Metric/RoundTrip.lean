import ShardTelemetry.Lib.Newest
import ShardTelemetry.Metric.Values

/-!
# The round trip of a metric chunk

Sidecars are interned: an index that was given out keeps denoting its value while the tables grow,
also when the search in a list gives way to a map.  With the lanes of the other modules this makes
the round trip of a whole chunk: decoding returns the points, sorted by their timestamps and
offsets.
-/

namespace ShardTelemetry.Metric

open Bytes List

/-! ## Interning -/

section Interner

variable {α : Type} [DecidableEq α]

namespace MetricSidecarInterner

/-- The map, once there is one, gives indices of the values. -/
def Ok (interner : MetricSidecarInterner α) : Prop :=
  ∀ ids, interner.ids = some ids → ∀ value id, ids.lookup value = some id →
    interner.values[id.toNat]? = some value

theorem new_ok : Ok (new : MetricSidecarInterner α) := by
  intro ids h
  cases h

variable {id : UInt32}

theorem idOf_eq_ok (h : idOf ix = .ok id) : id.toNat = ix := by
  unfold idOf at h
  split at h
  · next fits =>
    cases h
    exact UInt32.toNat_ofNat_of_lt' fits
  · cases h

theorem promoted_lookup {values : List α} {ids : AList fun _ : α => UInt32}
    (h : promoted ix values = .ok ids) (found : ids.lookup value = some id) :
    ∃ place, id.toNat = ix + place ∧ values[place]? = some value := by
  induction values generalizing ix ids with
  | nil =>
    cases h
    cases found
  | cons first rest ih =>
    obtain ⟨firstId, numbered, h⟩ := bind_eq_ok.mp h
    obtain ⟨restIds, later, h⟩ := bind_eq_ok.mp h
    cases h
    by_cases same : value = first
    · subst same
      rw [AList.lookup_insert] at found
      cases found
      exact ⟨0, idOf_eq_ok numbered, rfl⟩
    · rw [AList.lookup_insert_ne same] at found
      obtain ⟨place, eq, at'⟩ := ih later found
      exact ⟨place + 1, by omega, at'⟩

/-- What interning a value leaves behind. -/
structure Interned (interner : MetricSidecarInterner α) (value : α) (id : UInt32)
    (next : MetricSidecarInterner α) : Prop where
  ok : next.Ok
  grows : interner.values <+: next.values
  found : next.values[id.toNat]? = some value

theorem push_interned {next : MetricSidecarInterner α} (ok : interner.Ok)
    (h : interner.push value = .ok (id, next)) : Interned interner value id next := by
  obtain ⟨fresh, numbered, h⟩ := bind_eq_ok.mp h
  cases h
  have place := idOf_eq_ok numbered
  have found : (interner.values ++ [value])[id.toNat]? = some value := by
    rw [place, getElem?_append_right le_rfl, Nat.sub_self]
    rfl
  refine ⟨?_, prefix_append _ _, found⟩
  intro ids eq other otherId lookup
  obtain ⟨before, known, rfl⟩ := Option.map_eq_some_iff.mp eq
  by_cases same : other = value
  · subst same
    rw [AList.lookup_insert] at lookup
    cases lookup
    exact found
  · rw [AList.lookup_insert_ne same] at lookup
    have old := ok before known other otherId lookup
    rw [List.getElem?_append_left (List.getElem?_eq_some_iff.mp old).1]
    exact old

theorem intern_interned {interner next : MetricSidecarInterner α} (ok : interner.Ok)
    (h : interner.intern value = .ok (id, next)) : Interned interner value id next := by
  unfold intern at h
  split at h
  · next ids known =>
    split at h
    · next found =>
      cases h
      exact ⟨ok, prefix_refl _, ok ids known value id found⟩
    · exact push_interned ok h
  · next unknown =>
    split at h
    · next ix position =>
      obtain ⟨numbered, done, h⟩ := bind_eq_ok.mp h
      cases h
      obtain ⟨lt, at', -⟩ := idxOf?_eq_some_iff.mp position
      refine ⟨ok, prefix_refl _, ?_⟩
      rw [idOf_eq_ok done, getElem?_eq_getElem lt, at']
    · split at h
      · obtain ⟨ids, installed, h⟩ := bind_eq_ok.mp h
        have promotedOk : Ok ⟨interner.values, some ids⟩ := by
          intro same eq other otherId lookup
          cases eq
          obtain ⟨place, eq, at'⟩ := promoted_lookup installed lookup
          rwa [eq, Nat.zero_add]
        have interned := push_interned promotedOk h
        exact ⟨interned.ok, interned.grows, interned.found⟩
      · exact push_interned ok h

end MetricSidecarInterner

end Interner

/-! ## Sidecars -/

section Chunk

variable {I A E : Type} [DecidableEq I] [DecidableEq A] [DecidableEq E]

/-- The sidecar of a point, in tables that may have grown since. -/
structure Resolves (descriptions : List String) (metadataSets : List A)
    (exemplarSets : List E) (point : DurableMetricPoint I A E)
    (sidecar : MetricPointSidecar) : Prop where
  description : descriptions[sidecar.descriptionId.toNat]? = some point.description
  metadata : metadataSets[sidecar.metadataId.toNat]? = some point.metadata
  exemplars : exemplarSets[sidecar.exemplarsId.toNat]? = some point.exemplars
  startTimeUnixNanos : sidecar.startTimeUnixNanos = point.startTimeUnixNanos
  flags : sidecar.flags = point.flags

theorem getElem?_grown {values values' : List α} (grows : values <+: values') {ix : Nat}
    (h : values[ix]? = some value) : values'[ix]? = some value := by
  obtain ⟨more, rfl⟩ := grows
  rw [List.getElem?_append_left (List.getElem?_eq_some_iff.mp h).1]
  exact h

/-- The loop over the points interns what belongs to each of them. -/
structure Packed (interners next : Interners A E)
    (points : List (DurableMetricPoint I A E))
    (packed : List MetricPointSidecar) : Prop where
  descriptions : interners.descriptions.values <+: next.descriptions.values
  metadataSets : interners.metadataSets.values <+: next.metadataSets.values
  exemplarSets : interners.exemplarSets.values <+: next.exemplarSets.values
  resolves : Forall₂ (Resolves next.descriptions.values next.metadataSets.values
    next.exemplarSets.values) points packed

variable {sides : MetricChunkSidecars I A E} {first : DurableMetricPoint I A E}

section

omit [DecidableEq I]

theorem packSidecars_packed {interners next : Interners A E}
    (descriptions : interners.descriptions.Ok) (metadataSets : interners.metadataSets.Ok)
    (exemplarSets : interners.exemplarSets.Ok)
    (h : packSidecars interners points = .ok (next, packed)) :
    Packed interners next points packed := by
  induction points generalizing interners packed with
  | nil =>
    cases h
    exact ⟨prefix_refl _, prefix_refl _, prefix_refl _, .nil⟩
  | cons pt points ih =>
    obtain ⟨⟨descriptionId, _⟩, interned, h⟩ := bind_eq_ok.mp h
    obtain ⟨⟨metadataId, _⟩, interned', h⟩ := bind_eq_ok.mp h
    obtain ⟨⟨exemplarsId, _⟩, interned'', h⟩ := bind_eq_ok.mp h
    obtain ⟨⟨_, rest⟩, later, h⟩ := bind_eq_ok.mp h
    cases h
    have description := MetricSidecarInterner.intern_interned descriptions interned
    have md := MetricSidecarInterner.intern_interned metadataSets interned'
    have exemplars := MetricSidecarInterner.intern_interned exemplarSets interned''
    have tail := ih description.ok md.ok exemplars.ok later
    refine ⟨description.grows.trans tail.descriptions, md.grows.trans tail.metadataSets,
      exemplars.grows.trans tail.exemplarSets, .cons ?_ tail.resolves⟩
    exact ⟨getElem?_grown tail.descriptions description.found,
      getElem?_grown tail.metadataSets md.found,
      getElem?_grown tail.exemplarSets exemplars.found, rfl, rfl⟩

theorem encodeMetricSidecars_resolves (h : encodeMetricSidecars ident points = .ok sides) :
    sides.identity = ident ∧
      Forall₂ (Resolves sides.descriptions sides.metadataSets sides.exemplarSets) points
        sides.points := by
  obtain ⟨⟨interners, packed⟩, loop, h⟩ := bind_eq_ok.mp h
  cases h
  have done := packSidecars_packed MetricSidecarInterner.new_ok MetricSidecarInterner.new_ok
    MetricSidecarInterner.new_ok loop
  exact ⟨rfl, done.resolves⟩

end

/-! ## Points -/

/-- The header and the sidecars have what the points share. -/
structure Shares (header : ChunkHeader) (identity : I)
    (point : DurableMetricPoint I A E) : Prop where
  signal : point.recordRef.signal = .metrics
  topicId : point.recordRef.topicId = header.topicId
  partitionId : point.recordRef.partitionId = header.partitionId
  streamShardId : point.streamShardId = header.streamShardId
  identity : point.identity = identity

section

omit [DecidableEq I] [DecidableEq A] [DecidableEq E]

variable {hdr : ChunkHeader}

theorem decodePoint_eq (shares : Shares hdr sides.identity pt)
    (resolves : Resolves sides.descriptions sides.metadataSets sides.exemplarSets pt sidecar) :
    decodePoint hdr sides
      (((pt.recordRef.offset, pt.timestampUnixNanos.toNat), pt.value), sidecar) = .ok pt := by
  refine bind_ok (okOr_eq_ok.mpr resolves.description) ?_
  refine bind_ok (okOr_eq_ok.mpr resolves.metadata) ?_
  refine bind_ok (okOr_eq_ok.mpr resolves.exemplars) ?_
  rw [UInt64.ofNat_toNat, resolves.startTimeUnixNanos, resolves.flags, ← shares.topicId,
    ← shares.partitionId, ← shares.streamShardId, ← shares.identity, ← shares.signal]
  rfl

theorem decodePoints_eq (shares : ∀ pt ∈ points, Shares hdr sides.identity pt) (resolves : Forall₂
      (Resolves sides.descriptions sides.metadataSets sides.exemplarSets) points packed) :
    ((((points.map (·.recordRef.offset)).zip (points.map (·.timestampUnixNanos.toNat))).zip
      (points.map (·.value))).zip packed).mapM (decodePoint hdr sides) = .ok points := by
  rw [zip_map', zip_map']
  induction resolves with
  | nil => rfl
  | cons first rest ih =>
    rw [map_cons, zip_cons_cons, mapM_cons, decodePoint_eq (shares _ mem_cons_self) first]
    refine bind_ok rfl ?_
    exact bind_ok (ih (forall_mem_cons.mp shares).2) rfl

end

/-! ## Chunks -/

/-- The bytes of the header. -/
def headerBytes (header : ChunkHeader) : List UInt8 :=
  (chunkMagic ++ chunkVersion :: [0, 0, 0]) ++ (toLE 4 header.streamShardId.toNat ++
    (toLE 16 header.topicId.toNat ++ (toLE 4 header.partitionId.toNat ++
      (toLE 4 header.count ++ toLE 16 header.fingerprint.toNat))))

theorem length_headerBytes (hdr) : (headerBytes hdr).length = fixedHeader := by
  simp [headerBytes, chunkMagic, fixedHeader]

theorem reads_readHeader (fits : hdr.count < 2 ^ 32) : Reads readHeader (headerBytes hdr) hdr := by
  have magic : (chunkMagic ++ chunkVersion :: [0, 0, 0]).length = 8 := rfl
  refine (Reads.take magic).bind ?_
  refine (Reads.uint hdr.streamShardId.toNat_lt).bind ?_
  refine (Reads.uint hdr.topicId.isLt).bind ?_
  refine (Reads.uint hdr.partitionId.toNat_lt).bind ?_
  refine (Reads.uint fits).bind ?_
  have wide : hdr.fingerprint.toNat < 256 ^ 16 := hdr.fingerprint.isLt
  have back : (⟨UInt32.ofNat hdr.streamShardId.toNat, BitVec.ofNat 128 hdr.topicId.toNat,
      UInt32.ofNat hdr.partitionId.toNat, hdr.count,
      BitVec.ofNat 128 hdr.fingerprint.toNat⟩ : ChunkHeader) = hdr := by
    simp only [UInt32.ofNat_toNat, BitVec.ofNat_toNat, BitVec.setWidth_eq]
  convert (Reads.uint wide).map _ using 1
  exact back.symm

/-- The sidecars and the lanes of histograms and summaries are within the limits of the decoder. -/
structure WithinLimits (backend : Backend I A E)
    (points : List (DurableMetricPoint I A E)) : Prop where
  lanes : LanesWithinLimit backend ((backend.sortUnstable points).map (·.value))
  sidecars : ∀ identity sidecars raw,
    encodeMetricSidecars identity (backend.sortUnstable points) = .ok sidecars →
      backend.sidecars.toVec sidecars = .ok raw → raw.length ≤ sidecarLimit

/-- What is known about a chunk that was encoded. -/
structure Encoded (backend : Backend I A E)
    (sorted : List (DurableMetricPoint I A E)) (header : ChunkHeader)
    (sidecars : MetricChunkSidecars I A E) (payload : List UInt8) : Prop where
  long : fixedHeader ≤ payload.length
  magic : payload.take 8 = chunkMagic ++ chunkVersion :: [0, 0, 0]
  count : header.count = sorted.length
  shares : ∀ point ∈ sorted, Shares header sidecars.identity point
  fingerprint : backend.fingerprint sidecars.identity = header.fingerprint
  resolves : Forall₂ (Resolves sidecars.descriptions sidecars.metadataSets sidecars.exemplarSets)
    sorted sidecars.points
  reads : ∃ compressed raw, Reads (readChunk backend) payload (header,
      ⟨sorted.map (·.recordRef.offset), sorted.map (·.timestampUnixNanos.toNat),
        sorted.map (·.value), compressed⟩) ∧
    backend.zstd.decompress compressed sidecarLimit = .ok raw ∧
    backend.sidecars.fromSlice raw = some sidecars

section

omit [DecidableEq I] [DecidableEq A] [DecidableEq E]

theorem Encoded.decode {load : List UInt8} (h : Encoded be sorted hdr sides load) :
    decodeMetricChunk be (load ++ be.digest load) = .ok sorted := by
  have digest := be.length_digest load
  have length : (load ++ be.digest load).length - 32 = load.length := by
    rw [length_append, digest, Nat.add_sub_cancel]
  have long := h.long
  have first : (load ++ be.digest load).take 8 = chunkMagic ++ chunkVersion :: [0, 0, 0] := by
    rw [take_append_of_le_length (by unfold fixedHeader at long; omega), h.magic]
  have magic : (load ++ be.digest load).take 4 = chunkMagic := by
    rw [show 4 = min 4 8 from rfl, ← take_take, first]
    rfl
  have ver : ((load ++ be.digest load).drop 4).take 4 = chunkVersion :: [0, 0, 0] := by
    rw [take_drop, first]
    rfl
  obtain ⟨zip, raw, reads, decompressed, unpacked⟩ := h.reads
  refine ensure_bind_ok ?_ ?_
  · rw [magic, length_append, digest]
    simpa using long
  refine ensure_bind_ok (by rw [ver]; simp) ?_
  rw [length, take_left, drop_left]
  refine ensure_bind_ok (by simp) ?_
  refine bind_ok reads.run ?_
  refine bind_ok rfl ?_
  refine bind_ok (a := raw) (decoding_eq_ok.mpr decompressed) ?_
  refine bind_ok (a := sides) (okOr_eq_ok.mpr unpacked) ?_
  refine ensure_bind_ok ?_ (decodePoints_eq h.shares h.resolves)
  rw [h.fingerprint, h.count, h.resolves.length_eq]
  simp

/-- The four sections are read after the header. -/
theorem reads_readChunk (pos : hdr.count ≠ 0) (fits : hdr.count < 2 ^ 32)
    {offsetLane timestampLane valueLane zip : List UInt8}
    (offsetsBack : decompressU64 be.offsets offsetLane hdr.count = .ok offs)
    (timestampsBack : decodeTimestampDeltaOfDelta timestampLane hdr.count = .ok times)
    (valuesBack : decodeMetricValues be valueLane hdr.count = .ok values)
    (offsetsFit : offsetLane.length < 2 ^ 32) (timestampsFit : timestampLane.length < 2 ^ 32)
    (valuesFit : valueLane.length < 2 ^ 32) (sidecarsFit : zip.length < 2 ^ 32) :
    Reads (readChunk be) (headerBytes hdr ++ (framed offsetLane ++ (framed timestampLane ++
      (framed valueLane ++ framed zip)))) (hdr, ⟨offs, times, values, zip⟩) := by
  refine (reads_readHeader fits).bind (Reads.require (by simpa using pos) (Reads.map (hdr, ·) ?_))
  refine (reads_readSection offsetsFit).bind (Reads.lift offsetsBack ?_)
  refine (reads_readSection timestampsFit).bind (Reads.lift timestampsBack ?_)
  refine (reads_readSection valuesFit).bind (Reads.lift valuesBack ?_)
  exact (reads_readSection sidecarsFit).map _

end

/-- What is computed for a chunk before its sections are joined. -/
structure ChunkSections (I A E : Type) where
  values : List UInt8
  sidecars : MetricChunkSidecars I A E
  sidecarBytes : List UInt8
  compressedSidecars : List UInt8
  offsets : List UInt8
  timestamps : List UInt8

/-- The sections of sorted points, each of a length that can be written. -/
structure ChunkSections.Of (backend : Backend I A E) (identity : I)
    (sorted : List (DurableMetricPoint I A E))
    (sections : ChunkSections I A E) : Prop where
  values : encodeMetricValues backend (sorted.map (·.value)) = .ok sections.values
  sidecars : encodeMetricSidecars identity sorted = .ok sections.sidecars
  serialized : backend.sidecars.toVec sections.sidecars = .ok sections.sidecarBytes
  compressed : backend.zstd.compress sections.sidecarBytes = .ok sections.compressedSidecars
  count : sorted.length < 2 ^ 32
  offsets : backend.offsets.simpleCompress (sorted.map (·.recordRef.offset)) = .ok sections.offsets
  timestamps :
    encodeTimestampDeltaOfDelta (sorted.map (·.timestampUnixNanos.toNat)) = .ok sections.timestamps
  offsetsFit : sections.offsets.length < 2 ^ 32
  timestampsFit : sections.timestamps.length < 2 ^ 32
  valuesFit : sections.values.length < 2 ^ 32
  sidecarsFit : sections.compressedSidecars.length < 2 ^ 32

/-- The bytes before the digest. -/
def ChunkSections.payload (sections : ChunkSections I A E) (header : ChunkHeader) : List UInt8 :=
  headerBytes header ++ (framed sections.offsets ++ (framed sections.timestamps ++
    (framed sections.values ++ framed sections.compressedSidecars)))

/-- The header of a chunk whose points agree with one of them. -/
def chunkHeader (backend : Backend I A E) (first : DurableMetricPoint I A E) (count : Nat) :
    ChunkHeader :=
  ⟨first.streamShardId, first.recordRef.topicId, first.recordRef.partitionId, count,
    backend.fingerprint first.identity⟩

/-- A point has the series, the partition and the owner of another one. -/
def DurableMetricPoint.agrees (first point : DurableMetricPoint I A E) : Bool :=
  point.recordRef.signal = .metrics && point.recordRef.topicId = first.recordRef.topicId &&
    point.recordRef.partitionId = first.recordRef.partitionId &&
    point.streamShardId = first.streamShardId && point.identity = first.identity

/-- A chunk is encoded just when its points agree and its sections can be written. -/
theorem encodeMetricChunk_eq_ok : encodeMetricChunk be (first :: rest) = .ok enc ↔
      (first :: rest).all first.agrees = true ∧ ∃ secs : ChunkSections I A E,
        secs.Of be ((be.sortUnstable (first :: rest)).head?.getD first).identity
          (be.sortUnstable (first :: rest)) ∧
        enc = secs.payload (chunkHeader be first (be.sortUnstable (first :: rest)).length) ++
          be.digest
            (secs.payload (chunkHeader be first (be.sortUnstable (first :: rest)).length)) := by
  have bytes : ∀ (secs : ChunkSections I A E) (count : Nat),
      chunkMagic ++ chunkVersion :: [0, 0, 0] ++ toLE 4 first.streamShardId.toNat ++
        toLE 16 first.recordRef.topicId.toNat ++ toLE 4 first.recordRef.partitionId.toNat ++
        toLE 4 count ++ toLE 16 (be.fingerprint first.identity).toNat ++ framed secs.offsets ++
        framed secs.timestamps ++ framed secs.values ++ framed secs.compressedSidecars =
      secs.payload (chunkHeader be first count) := by
    intro secs count
    simp only [ChunkSections.payload, headerBytes, chunkHeader, append_assoc]
  constructor
  · intro h
    obtain ⟨_, checked, h⟩ := bind_eq_ok.mp h
    dsimp only at h
    generalize be.sortUnstable (first :: rest) = sorted at h ⊢
    obtain ⟨values, valuesEncoded, h⟩ := bind_eq_ok.mp h
    obtain ⟨sides, packed, h⟩ := bind_eq_ok.mp h
    obtain ⟨raw, serialized, h⟩ := bind_eq_ok.mp h
    obtain ⟨zip, done, h⟩ := bind_eq_ok.mp h
    obtain ⟨count, counted, h⟩ := bind_eq_ok.mp h
    obtain ⟨offs, offsetsEncoded, h⟩ := bind_eq_ok.mp h
    obtain ⟨times, timestampsEncoded, h⟩ := bind_eq_ok.mp h
    obtain ⟨offsetSection, offsetAppended, h⟩ := bind_eq_ok.mp h
    obtain ⟨timestampSection, timestampAppended, h⟩ := bind_eq_ok.mp h
    obtain ⟨valueSection, valueAppended, h⟩ := bind_eq_ok.mp h
    obtain ⟨sidecarSection, sidecarAppended, h⟩ := bind_eq_ok.mp h
    cases h
    obtain ⟨fits, rfl⟩ := lengthBytes_eq_ok.mp counted
    obtain ⟨offsetsFit, rfl⟩ := appendSection_eq_ok.mp offsetAppended
    obtain ⟨timestampsFit, rfl⟩ := appendSection_eq_ok.mp timestampAppended
    obtain ⟨valuesFit, rfl⟩ := appendSection_eq_ok.mp valueAppended
    obtain ⟨sidecarsFit, rfl⟩ := appendSection_eq_ok.mp sidecarAppended
    refine ⟨ensure_eq_ok.mp checked, ⟨values, sides, raw, zip, offs, times⟩,
      ⟨valuesEncoded, packed, compressing_eq_ok.mp serialized, compressing_eq_ok.mp done, fits,
        compressing_eq_ok.mp offsetsEncoded, timestampsEncoded, offsetsFit,
          timestampsFit, valuesFit,
        sidecarsFit⟩, ?_⟩
    rw [← bytes]
  · rintro ⟨agree, secs, of, rfl⟩
    refine ensure_bind_ok agree ?_
    dsimp only
    generalize be.sortUnstable (first :: rest) = sorted at of ⊢
    refine bind_ok of.values ?_
    refine bind_ok of.sidecars ?_
    refine bind_ok (compressing_eq_ok.mpr of.serialized) ?_
    refine bind_ok (compressing_eq_ok.mpr of.compressed) ?_
    refine bind_ok (lengthBytes_eq_ok.mpr ⟨of.count, rfl⟩) ?_
    refine bind_ok (compressing_eq_ok.mpr of.offsets) ?_
    refine bind_ok of.timestamps ?_
    refine bind_ok (appendSection_eq_ok.mpr ⟨of.offsetsFit, rfl⟩) ?_
    refine bind_ok (appendSection_eq_ok.mpr ⟨of.timestampsFit, rfl⟩) ?_
    refine bind_ok (appendSection_eq_ok.mpr ⟨of.valuesFit, rfl⟩) ?_
    refine bind_ok (appendSection_eq_ok.mpr ⟨of.sidecarsFit, rfl⟩) ?_
    rw [← bytes]
    rfl

/-- The sections of agreeing points make a chunk that can be read, within the limits of the
decoder. -/
theorem ChunkSections.Of.encoded {secs : ChunkSections I A E}
    (h : secs.Of be (sorted.head?.getD first).identity sorted)
    (agree : ∀ pt ∈ sorted, first.agrees pt = true) (pos : sorted.length ≠ 0)
    (lanes : LanesWithinLimit be (sorted.map (·.value)))
    (limit : secs.sidecarBytes.length ≤ sidecarLimit) :
    Encoded be sorted (chunkHeader be first sorted.length) secs.sidecars
      (secs.payload (chunkHeader be first sorted.length)) := by
  obtain ⟨ident, resolves⟩ := encodeMetricSidecars_resolves h.sidecars
  -- the points agree with the first one, also on the identity in the sidecars
  have agree : ∀ pt ∈ sorted, pt.recordRef.signal = .metrics ∧
      pt.recordRef.topicId = first.recordRef.topicId ∧
      pt.recordRef.partitionId = first.recordRef.partitionId ∧
      pt.streamShardId = first.streamShardId ∧ pt.identity = first.identity := by
    intro pt mem
    simpa only [DurableMetricPoint.agrees, Bool.and_eq_true, decide_eq_true_eq, and_assoc]
      using agree pt mem
  have owner : secs.sidecars.identity = first.identity := by
    rw [ident]
    cases sorted with
    | nil => rfl
    | cons pt _ => exact (agree pt mem_cons_self).2.2.2.2
  have offsetsBack : decompressU64 be.offsets secs.offsets sorted.length =
      .ok (sorted.map (·.recordRef.offset)) := by
    have back := decompressInto_lossless (compressing_eq_ok.mpr h.offsets) "invalid metric Pco lane"
      "metric Pco lane count mismatch"
    rwa [length_map] at back
  have timestampsBack : decodeTimestampDeltaOfDelta secs.timestamps sorted.length =
      .ok (sorted.map (·.timestampUnixNanos.toNat)) := by
    have back := decodeTimestampDeltaOfDelta_encode (by simpa using pos)
      (fun time mem => by
        obtain ⟨pt, -, rfl⟩ := mem_map.mp mem
        exact pt.timestampUnixNanos.toNat_lt)
      (by rw [length_map]; exact h.count.trans (by decide)) h.timestamps
    rwa [length_map] at back
  have valuesBack : decodeMetricValues be secs.values sorted.length =
      .ok (sorted.map (·.value)) := by
    have back := decodeMetricValues_encode lanes h.values
    rwa [length_map] at back
  refine ⟨?_, ?_, rfl, ?_, ?_, resolves, ?_⟩
  · rw [ChunkSections.payload, length_append, length_headerBytes]
    exact Nat.le_add_right _ _
  · rw [ChunkSections.payload, headerBytes, append_assoc]
    exact take_left' rfl
  · intro pt mem
    obtain ⟨signal, topic, part, shard, series⟩ := agree pt mem
    exact ⟨signal, topic, part, shard, series.trans owner.symm⟩
  · rw [owner]
    rfl
  · exact ⟨secs.compressedSidecars, secs.sidecarBytes,
      reads_readChunk pos h.count offsetsBack timestampsBack valuesBack h.offsetsFit h.timestampsFit
        h.valuesFit h.sidecarsFit,
      be.zstd.lossless _ _ _ h.compressed limit, be.sidecars.lossless _ _ h.serialized⟩

/-- A chunk that was encoded decodes to its points, sorted by timestamps and offsets. -/
theorem decode_encode_metric_chunk {points : List (DurableMetricPoint I A E)} {enc : List UInt8}
    (h : encodeMetricChunk be points = .ok enc) (limits : WithinLimits be points) :
    ∃ sorted, sorted.Perm points ∧
      (sorted.Pairwise fun left right => left.sortKey ≤ right.sortKey) ∧
      decodeMetricChunk be enc = .ok sorted := by
  cases points with
  | nil => cases h
  | cons first rest =>
    obtain ⟨agree, secs, of, rfl⟩ := encodeMetricChunk_eq_ok.mp h
    have perm := be.sortUnstable_perm (first :: rest)
    have chunk := of.encoded (fun pt mem => all_eq_true.mp agree pt (perm.subset mem))
      (by rw [perm.length_eq]; exact Nat.succ_ne_zero _) limits.lanes
      (limits.sidecars _ _ _ of.sidecars of.serialized)
    exact ⟨be.sortUnstable (first :: rest), perm, be.sortUnstable_pairwise _, chunk.decode⟩

end Chunk

/-! ## A sample chunk -/

/-- A point with a double of the given bits. -/
def samplePoint (offset timestamp : UInt64) (bits : BitVec 64) :
    DurableMetricPoint Unit Unit Unit :=
  ⟨1, ⟨.metrics, 7, 2, offset⟩, (), "requests", (), 0, timestamp, 0, .gauge (.doubleBits bits), ()⟩

/-- A quiet NaN with a payload, a negative zero and a one, not in the order of time. -/
def samplePoints : List (DurableMetricPoint Unit Unit Unit) :=
  [samplePoint 0 20 0x7ff8000000000001, samplePoint 1 10 0x8000000000000000,
    samplePoint 2 30 0x3ff0000000000000]

/-- Words of eight bytes. -/
def samplePco : Pco UInt64 where
  simpleCompress values := .ok (values.flatMap fun value => toLE 8 value.toNat)
  simpleDecompressInto bytes count :=
    match many (uint 8 ()) count bytes with
    | .ok (values, _) => some (values.map UInt64.ofNat, count, true)
    | .error _ => none
  lossless values bytes h := by
    cases h
    have reads :
        Reads (many (uint 8 ()) values.length) (values.flatMap fun value => toLE 8 value.toNat)
        (values.map UInt64.toNat) := Reads.many fun value _ => Reads.uint value.toNat_lt
    rw [reads.run]
    simp [Function.comp_def]

/-- A library that rejects everything. -/
def rejecting (α : Type) : Messagepack α where
  toVec _ := .error "unsupported"
  fromSlice _ := none
  lossless _ _ h := by cases h

def sampleSidecars : MetricChunkSidecars Unit Unit Unit :=
  ⟨(), ["requests"], [()], [()], replicate 3 ⟨0, 0, 0, 0, 0⟩⟩

def sampleBackend : Backend Unit Unit Unit where
  digest _ := replicate 32 0
  length_digest _ := rfl
  fingerprint _ := 0
  offsets := samplePco
  integers := ⟨fun _ => .error "unsupported", fun _ _ => none, nofun⟩
  zstd :=
    ⟨.ok, fun bytes capacity => if bytes.length ≤ capacity then .ok bytes else .error "full", by
    intro raw bytes capacity h le
    cases h
    rw [if_pos le]⟩
  explicitHistogram := rejecting _
  exponentialHistogram := rejecting _
  summary := rejecting _
  explicitHistograms := rejecting _
  exponentialHistograms := rejecting _
  summaries := rejecting _
  sidecars := ⟨fun sidecars => if sidecars = sampleSidecars then .ok [1] else .error "unsupported",
    fun _ => some sampleSidecars, by
      intro sidecars bytes h
      split at h
      · next eq => rw [eq]
      · cases h⟩
  sortUnstable points := points.insertionSort fun left right => left.sortKey ≤ right.sortKey
  sortUnstable_perm points := perm_insertionSort _ points
  sortUnstable_pairwise := (SortBy.insertion DurableMetricPoint.sortKey).sorted

/-- The doubles come back bit for bit. -/
theorem decode_encode_metric_chunk_sample :
    ∃ enc sorted, encodeMetricChunk sampleBackend samplePoints = .ok enc ∧
      sorted.Perm samplePoints ∧ (sorted.Pairwise fun left right => left.sortKey ≤ right.sortKey) ∧
      decodeMetricChunk sampleBackend enc = .ok sorted := by
  have ok : (encodeMetricChunk sampleBackend samplePoints).isOk = true := by decide +kernel
  obtain ⟨enc, h⟩ := exists_of_isOk ok
  obtain ⟨sorted, dec⟩ := decode_encode_metric_chunk h ⟨⟨nofun, nofun, nofun⟩, by
      intro _ sides raw _ packed
      change (if sides = sampleSidecars then Except.ok [1] else .error "unsupported") = _ at packed
      split at packed
      · cases packed
        decide
      · cases packed⟩
  exact ⟨enc, sorted, h, dec⟩

end ShardTelemetry.Metric
