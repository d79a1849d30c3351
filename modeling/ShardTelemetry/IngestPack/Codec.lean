import Mathlib.Data.List.Sort
import ShardTelemetry.Lib.Varint
import ShardTelemetry.Wire

/-!
# Ingest packs

A pack scatters the events of a batch into one compressed structural frame for each compression
cohort.  The offset of a record in its frame is its ordinal in the batch, from which decoding
restores the order.  A transient context has the embedded indices of the frames, so that a live
append is indexed without decompressing them.

Of a structural block the layout is modelled: the number of records, seven lanes and the embedded
index.  What is in the lanes and in the index is left to a codec (`StructuralCodec`), about which
nothing is assumed.
-/

namespace ShardTelemetry.IngestPack

open Bytes

/-! ## Records -/

/-- A log event.  Its typed metadata (body, attributes, resource, scope, severity, identifiers and
the like) is passed on as a whole. -/
structure OtlpLogEvent (Metadata : Type) where
  timestampUnixNanos : UInt64
  message : String
  fields : List (String × String)
  metadata : Metadata
  compressionCohort : UInt64
  deriving DecidableEq

/-- An event at its place in the pack. -/
structure IngestRecordView (Metadata : Type) where
  ordinal : UInt32
  event : OtlpLogEvent Metadata
  deriving DecidableEq

structure DecodedStructuralRecord (Metadata : Type) where
  offset : UInt64
  timestampUnixNanos : UInt64
  message : String
  fields : List (String × String)
  metadata : Metadata
  deriving DecidableEq

section Views

variable {Metadata : Type}

/-- The record that a view shows to the encoder; its offset is the ordinal. -/
def IngestRecordView.record (view : IngestRecordView Metadata) :
    DecodedStructuralRecord Metadata where
  offset := view.ordinal.toUInt64
  timestampUnixNanos := view.event.timestampUnixNanos
  message := view.event.message
  fields := view.event.fields
  metadata := view.event.metadata

/-- The events with their ordinals. -/
def views (events : List (OtlpLogEvent Metadata)) : List (IngestRecordView Metadata) :=
  events.zipIdx.map fun entry => ⟨UInt32.ofNat entry.2, entry.1⟩

/-- The views of one cohort. -/
abbrev Cohort (Metadata : Type) : Type := UInt64 × List (IngestRecordView Metadata)

/-- `cohorts.entry(cohort).or_default().push(view)` in a map that is ordered by its keys. -/
def pushView (view : IngestRecordView Metadata) : List (Cohort Metadata) → List (Cohort Metadata)
  | [] => [(view.event.compressionCohort, [view])]
  | (cohort, records) :: rest =>
    if view.event.compressionCohort = cohort then (cohort, records ++ [view]) :: rest
    else if view.event.compressionCohort < cohort then
      (view.event.compressionCohort, [view]) :: (cohort, records) :: rest
    else (cohort, records) :: pushView view rest

def groupCohorts (records : List (IngestRecordView Metadata)) : List (Cohort Metadata) :=
  records.foldl (fun cohorts view => pushView view cohorts) []

/-- The least timestamp of a group; groups are not empty. -/
def minTimestamp : List (IngestRecordView Metadata) → UInt64
  | [] => 0
  | first :: rest =>
    (rest.map (·.event.timestampUnixNanos)).foldl min first.event.timestampUnixNanos

/-- The greatest timestamp of a group. -/
def maxTimestamp : List (IngestRecordView Metadata) → UInt64
  | [] => 0
  | first :: rest =>
    (rest.map (·.event.timestampUnixNanos)).foldl max first.event.timestampUnixNanos

end Views

/-! ## Structural blocks -/

structure StructuralLanes where
  offsets : List UInt8
  timestamps : List UInt8
  templates : List UInt8
  bodies : List UInt8
  attributeTables : List UInt8
  fields : List UInt8
  typedMetadata : List UInt8

/-- How records become lanes with an embedded index, and back. -/
structure StructuralCodec (Metadata Index : Type) where
  encodeLanes : List (IngestRecordView Metadata) → TelemetryResult (StructuralLanes × List UInt8)
  decodeIndex : List UInt8 → Nat → TelemetryResult Index
  recordCount : Index → Nat
  decodeLanes :
    StructuralLanes → Index → Nat → TelemetryResult (List (DecodedStructuralRecord Metadata))

/-- `STLG` -/
def blockMagic : List UInt8 := [0x53, 0x54, 0x4C, 0x47]

def writeVarint (value : Nat) : List UInt8 := Varint.write 64 value

def readVarint : Reader TelemetryError Nat :=
  Varint.read 64 (invalid "truncated block") (invalid "varint is too long")
    (some (invalid "varint overflow"))

def appendBytes (value : List UInt8) : List UInt8 := writeVarint value.length ++ value

def readBytes : Reader TelemetryError (List UInt8) := do
  let length ← readVarint
  take length (invalid "truncated section")

structure IndexedStructuralBlock where
  structural : List UInt8
  embeddedIndex : List UInt8

/-- The lanes and the embedded index, one after the other. -/
def sectionBytes (lanes : StructuralLanes) (embeddedIndex : List UInt8) : List UInt8 :=
  appendBytes lanes.offsets ++ (appendBytes lanes.timestamps ++ (appendBytes lanes.templates ++
    (appendBytes lanes.bodies ++ (appendBytes lanes.attributeTables ++ (appendBytes lanes.fields ++
      (appendBytes lanes.typedMetadata ++ appendBytes embeddedIndex))))))

def readSections : Reader TelemetryError (StructuralLanes × List UInt8) := do
  let offsets ← readBytes
  let timestamps ← readBytes
  let templates ← readBytes
  let bodies ← readBytes
  let attributeTables ← readBytes
  let fields ← readBytes
  let typedMetadata ← readBytes
  let embeddedIndex ← readBytes
  return (⟨offsets, timestamps, templates, bodies, attributeTables, fields, typedMetadata⟩,
    embeddedIndex)

/-- The number of records and the embedded index of a block. -/
def structuralSections (encoded : List UInt8) : TelemetryResult (Nat × List UInt8) := do
  ensure (encoded.take 4 = blockMagic) (invalid "missing structural block magic")
  let (recordCount, rest) ← readVarint (encoded.drop 4)
  let ((_, embeddedIndex), rest) ← readSections rest
  ensure rest.isEmpty (invalid "trailing component bytes")
  return (recordCount, embeddedIndex)

section Blocks

variable {Metadata Index : Type} (codec : StructuralCodec Metadata Index)

def encodeIndexedStructuralRecords (records : List (IngestRecordView Metadata)) :
    TelemetryResult IndexedStructuralBlock := do
  let (lanes, embeddedIndex) ← codec.encodeLanes records
  return ⟨blockMagic ++ (writeVarint records.length ++ sectionBytes lanes embeddedIndex),
    embeddedIndex⟩

def decodeEmbeddedFrameIndexSection (encoded : List UInt8) (expectedRecordCount : Nat) :
    TelemetryResult Index := do
  ensure (expectedRecordCount < 2 ^ 32) .recordTooLarge
  let index ← codec.decodeIndex encoded expectedRecordCount
  ensure (codec.recordCount index = expectedRecordCount)
    (invalid "embedded index record count mismatch")
  return index

def decodeEmbeddedFrameIndex (encoded : List UInt8) : TelemetryResult Index := do
  let (recordCount, embeddedIndex) ← structuralSections encoded
  decodeEmbeddedFrameIndexSection codec embeddedIndex recordCount

def decodeStructuralBlock (encoded : List UInt8) :
    TelemetryResult (List (DecodedStructuralRecord Metadata)) := do
  ensure (encoded.take 4 = blockMagic) (invalid "missing structural block magic")
  let (recordCount, rest) ← readVarint (encoded.drop 4)
  ensure (recordCount ≤ rest.length) (invalid "record count")
  let ((lanes, embeddedIndex), rest) ← readSections rest
  ensure rest.isEmpty (invalid "trailing bytes")
  let index ← decodeEmbeddedFrameIndexSection codec embeddedIndex recordCount
  codec.decodeLanes lanes index recordCount

end Blocks

/-! ## Packing -/

def maxIngestStructuralBytes : Nat := 64 * 1024 * 1024
def maxNativeFrameBytes : Nat := 64 * 1024 * 1024

/-- `SLW1` -/
def packMagic : List UInt8 := [0x53, 0x4C, 0x57, 0x31]
/-- `SLT1` -/
def transientMagic : List UInt8 := [0x53, 0x4C, 0x54, 0x31]

/-- zstd and BLAKE3. -/
structure Backend where
  zstd : Zstd
  digest : List UInt8 → List UInt8
  length_digest : ∀ contents, (digest contents).length = 32

structure PreparedIngestPack where
  payload : List UInt8
  transientContext : List UInt8

/-- What a group adds to the payload and to the transient context. -/
structure AppendedGroup where
  encoded : List UInt8
  transient : List UInt8

/-- The first four bytes of the digest. -/
def payloadChecksum (backend : Backend) (payload : List UInt8) : Nat :=
  ofLE ((backend.digest payload).take 4)

section Pack

variable {Metadata Index : Type} (codec : StructuralCodec Metadata Index) (backend : Backend)

def appendIngestGroup (group : Cohort Metadata) : TelemetryResult AppendedGroup := do
  let (cohort, records) := group
  let block ← encodeIndexedStructuralRecords codec records
  ensure (block.structural.length ≤ maxIngestStructuralBytes) .recordTooLarge
  let compressed ← compressing (backend.zstd.compress block.structural)
  let recordCount ← lengthBytes records.length
  let structuralBytes ← lengthBytes block.structural.length
  let indexBytes ← lengthBytes block.embeddedIndex.length
  let compressedBytes ← lengthBytes compressed.length
  return {
    encoded := toLE 8 cohort.toNat ++ (recordCount ++ (structuralBytes ++ (compressedBytes ++
      (toLE 4 (payloadChecksum backend compressed) ++ (toLE 8 (minTimestamp records).toNat ++
        (toLE 8 (maxTimestamp records).toNat ++ compressed))))))
    transient := toLE 8 cohort.toNat ++ (recordCount ++ (structuralBytes ++ (indexBytes ++
      block.embeddedIndex))) }

/-- The loop over the cohorts. -/
def appendIngestGroups : List (Cohort Metadata) → TelemetryResult AppendedGroup
  | [] => .ok ⟨[], []⟩
  | group :: rest => do
    let appended ← appendIngestGroup codec backend group
    let later ← appendIngestGroups rest
    return ⟨appended.encoded ++ later.encoded, appended.transient ++ later.transient⟩

def prepareGroupedIngestPack (recordCount : Nat) (cohorts : List (Cohort Metadata)) :
    TelemetryResult PreparedIngestPack := do
  let recordCountBytes ← lengthBytes recordCount
  ensure (cohorts.length < 2 ^ 16) .recordTooLarge
  let groups ← appendIngestGroups codec backend cohorts
  let payload :=
    packMagic ++ (recordCountBytes ++ (toLE 2 cohorts.length ++ ([0, 0] ++ groups.encoded)))
  let transientContext := transientMagic ++ (toLE 2 cohorts.length ++ ([0, 0] ++ groups.transient))
  ensure (payload.length ≤ maxNativeFrameBytes) .recordTooLarge
  ensure (transientContext.length ≤ maxNativeFrameBytes) .recordTooLarge
  return ⟨payload, transientContext⟩

/-- The same with one group, or with none if there are no records. -/
def prepareSingleCohortIngestPack (records : List (IngestRecordView Metadata)) (cohort : UInt64) :
    TelemetryResult PreparedIngestPack :=
  prepareGroupedIngestPack codec backend records.length
    (if records.isEmpty then [] else [(cohort, records)])

def prepareIngestPack (events : List (OtlpLogEvent Metadata)) :
    TelemetryResult PreparedIngestPack := do
  ensure (events.length < 2 ^ 32) .recordTooLarge
  match events.head?.filter fun first =>
      events.all fun event => event.compressionCohort = first.compressionCohort with
  | some first => prepareSingleCohortIngestPack codec backend (views events) first.compressionCohort
  | none => prepareGroupedIngestPack codec backend events.length (groupCohorts (views events))

/-! ## Groups of a payload -/

structure IngestGroup where
  cohort : UInt64
  recordCount : Nat
  structuralBytes : Nat
  checksum : Nat
  minTimestampUnixNanos : UInt64
  maxTimestampUnixNanos : UInt64
  compressed : List UInt8

/-- `IngestPackCursor::new`: the number of groups, and what follows the header. -/
def openPack (payload : List UInt8) (expectedRecordCount : Nat) :
    TelemetryResult (Nat × List UInt8) := do
  ensure (12 ≤ payload.length && payload.take 4 = packMagic && (payload.drop 10).take 2 = [0, 0])
    (invalid "invalid compressed ingest pack header")
  ensure (ofLE ((payload.drop 4).take 4) = expectedRecordCount)
    (invalid "compressed ingest record count mismatch")
  return (ofLE ((payload.drop 8).take 2), payload.drop 12)

def readGroupField (width : Nat) : Reader TelemetryError Nat :=
  uint width (invalid "compressed ingest group header is truncated")

def nextGroup : Reader TelemetryError IngestGroup := do
  let cohort ← readGroupField 8
  let recordCount ← readGroupField 4
  let structuralBytes ← readGroupField 4
  let compressedBytes ← readGroupField 4
  let checksum ← readGroupField 4
  let minTimestamp ← readGroupField 8
  let maxTimestamp ← readGroupField 8
  let compressed ← take compressedBytes (invalid "compressed ingest group payload is truncated")
  return ⟨UInt64.ofNat cohort, recordCount, structuralBytes, checksum, UInt64.ofNat minTimestamp,
    UInt64.ofNat maxTimestamp, compressed⟩

/-- The loop over the groups; what is done with a group may use and change a state. -/
def readGroups {σ α : Type} (process : IngestGroup → σ → TelemetryResult (α × σ)) :
    Nat → σ → Reader TelemetryError (List (IngestGroup × α) × σ)
  | 0, state => pure ([], state)
  | count + 1, state => do
    let group ← nextGroup
    let (result, state) ← lift (process group state)
    let (rest, state) ← readGroups process count state
    return ((group, result) :: rest, state)

/-- `IngestPackCursor::finish` -/
def finishPack (expectedRecordCount groupCount : Nat) (groups : List IngestGroup)
    (rest : List UInt8) : TelemetryResult Unit :=
  ensure (rest.isEmpty && (groups.map (·.recordCount)).sum = expectedRecordCount &&
      !(0 < expectedRecordCount && groupCount = 0))
    (invalid "compressed ingest pack totals are invalid")

/-- What is checked of a group without looking at its contents. -/
def groupShape (group : IngestGroup) : Bool :=
  group.recordCount ≠ 0 && group.structuralBytes ≠ 0 &&
    group.structuralBytes ≤ maxIngestStructuralBytes &&
    group.minTimestampUnixNanos ≤ group.maxTimestampUnixNanos

def validateGroup (group : IngestGroup) : TelemetryResult Unit :=
  ensure (groupShape group && payloadChecksum backend group.compressed = group.checksum)
    (invalid "invalid compressed ingest group")

def decompressGroup (group : IngestGroup) : TelemetryResult (List UInt8) := do
  let structural ← compressing (backend.zstd.decompress group.compressed group.structuralBytes)
  ensure (structural.length = group.structuralBytes)
    (invalid "compressed ingest structural length mismatch")
  return structural

/-! ## Events -/

/-- An event from its record, with its ordinal. -/
def decodeEvent (expectedRecordCount : Nat) (cohort : UInt64)
    (record : DecodedStructuralRecord Metadata) :
    TelemetryResult (Nat × OtlpLogEvent Metadata) := do
  let ordinal := record.offset.toNat
  ensure (ordinal < 2 ^ 32) .recordTooLarge
  ensure (ordinal < expectedRecordCount) (invalid "compressed ingest ordinal is out of range")
  return (ordinal,
    ⟨record.timestampUnixNanos, record.message, record.fields, record.metadata, cohort⟩)

def decodeGroup (expectedRecordCount : Nat) (group : IngestGroup) (_ : Unit) :
    TelemetryResult (List (Nat × OtlpLogEvent Metadata) × Unit) := do
  validateGroup backend group
  let structural ← decompressGroup backend group
  let records ← decodeStructuralBlock codec structural
  ensure (records.length = group.recordCount)
    (invalid "compressed ingest group record count mismatch")
  let events ← records.mapM (decodeEvent expectedRecordCount group.cohort)
  return (events, ())

def decodeIngestPack (payload : List UInt8) : TelemetryResult (List (OtlpLogEvent Metadata)) := do
  ensure (8 ≤ payload.length) (invalid "compressed ingest pack header is truncated")
  let expectedRecordCount := ofLE ((payload.drop 4).take 4)
  let (groupCount, rest) ← openPack payload expectedRecordCount
  let ((groups, _), rest) ← readGroups (decodeGroup codec backend expectedRecordCount)
    groupCount () rest
  finishPack expectedRecordCount groupCount (groups.map (·.1)) rest
  let events := (groups.flatMap (·.2)).insertionSort fun left right => left.1 ≤ right.1
  ensure (events.length = expectedRecordCount && events.map (·.1) = List.range events.length)
    (invalid "compressed ingest ordinals are not contiguous")
  return events.map (·.2)

/-! ## Indexed frames -/

structure IndexedIngestFrame (Index : Type) where
  frameId : Nat
  cohort : UInt64
  recordCount : Nat
  structuralBytes : Nat
  minTimestampUnixNanos : UInt64
  maxTimestampUnixNanos : UInt64
  compressed : List UInt8
  index : Index

structure TransientGroup where
  cohort : UInt64
  recordCount : Nat
  structuralBytes : Nat
  embeddedIndex : List UInt8

/-- `TransientPackCursor::new` -/
def openTransient (context : List UInt8) (expectedGroupCount : Nat) :
    TelemetryResult (List UInt8) := do
  ensure (8 ≤ context.length && context.take 4 = transientMagic && (context.drop 6).take 2 = [0, 0])
    (invalid "invalid transient ingest pack header")
  ensure (ofLE ((context.drop 4).take 2) = expectedGroupCount)
    (invalid "transient ingest group count mismatch")
  return context.drop 8

def readTransientField (width : Nat) : Reader TelemetryError Nat :=
  uint width (invalid "transient ingest group header is truncated")

def nextTransientGroup : Reader TelemetryError TransientGroup := do
  let cohort ← readTransientField 8
  let recordCount ← readTransientField 4
  let structuralBytes ← readTransientField 4
  let indexBytes ← readTransientField 4
  let embeddedIndex ← take indexBytes (invalid "transient ingest index payload is truncated")
  return ⟨UInt64.ofNat cohort, recordCount, structuralBytes, embeddedIndex⟩

/-- The index of a group: from the transient context if there is one, else from the frame. -/
def groupIndex (group : IngestGroup) : Option (List UInt8) →
    TelemetryResult (Index × Option (List UInt8))
  | some transient => do
    let (live, transient) ← nextTransientGroup transient
    ensure (live.cohort = group.cohort && live.recordCount = group.recordCount &&
        live.structuralBytes = group.structuralBytes)
      (invalid "transient ingest group disagrees with durable group")
    let index ← decodeEmbeddedFrameIndexSection codec live.embeddedIndex group.recordCount
    return (index, some transient)
  | none => do
    let structural ← decompressGroup backend group
    let index ← decodeEmbeddedFrameIndex codec structural
    return (index, none)

def indexGroup (validateChecksums : Bool) (group : IngestGroup) (transient : Option (List UInt8)) :
    TelemetryResult (IndexedIngestFrame Index × Option (List UInt8)) := do
  if validateChecksums then validateGroup backend group
  else ensure (groupShape group) (invalid "invalid compressed ingest group")
  let (index, transient) ← groupIndex codec backend group transient
  ensure (codec.recordCount index = group.recordCount)
    (invalid "compressed ingest frame index record count mismatch")
  return (⟨0, group.cohort, codec.recordCount index, group.structuralBytes,
    group.minTimestampUnixNanos, group.maxTimestampUnixNanos, group.compressed, index⟩, transient)

def decodeIndexedIngestFramesInner (payload : List UInt8) (transientContext : Option (List UInt8))
    (expectedRecordCount : Nat) (validateChecksums : Bool) :
    TelemetryResult (List (IndexedIngestFrame Index)) := do
  let (groupCount, rest) ← openPack payload expectedRecordCount
  let transient ← (transientContext.filter fun context => context.take 4 = transientMagic).mapM
    fun context => openTransient context groupCount
  let ((groups, transient), rest) ←
    readGroups (indexGroup codec backend validateChecksums) groupCount transient rest
  finishPack expectedRecordCount groupCount (groups.map (·.1)) rest
  ensure (transient.all (·.isEmpty)) (invalid "transient ingest pack totals are invalid")
  return groups.map (·.2)

/-- On recovery the persisted bytes are validated. -/
def decodeIndexedIngestFrames (payload : List UInt8) (transientContext : Option (List UInt8))
    (expectedRecordCount : Nat) : TelemetryResult (List (IndexedIngestFrame Index)) :=
  decodeIndexedIngestFramesInner codec backend payload transientContext expectedRecordCount true

/-- A live append was validated before. -/
def decodeIndexedIngestFramesAfterValidation (payload : List UInt8)
    (transientContext : Option (List UInt8)) (expectedRecordCount : Nat) :
    TelemetryResult (List (IndexedIngestFrame Index)) :=
  decodeIndexedIngestFramesInner codec backend payload transientContext expectedRecordCount false

end Pack

end ShardTelemetry.IngestPack
