import ShardTelemetry.Lib.Bytes
import ShardTelemetry.Sink.Checkpoint

/-!
# The sink journal

The checksummed transaction journal of one physical shard, at the level of the bytes of its file:
the encoding of a transaction, its frame, `append` and `open`.  A frame is the length of the encoded
transaction in four bytes, the encoded transaction and its BLAKE3 digest, which is a parameter.

The file remembers how much of it has been synced; a crash may lose any part of the rest.
-/

namespace ShardTelemetry.Sink

open Bytes

/-- `STELSNK1`. -/
def magic : List UInt8 := [0x53, 0x54, 0x45, 0x4C, 0x53, 0x4E, 0x4B, 0x31]
def checksumBytes : Nat := 32
def maxFrameBytes : Nat := 64 * 1024 * 1024
def batchSyncBytes : Nat := 1024 * 1024

/-- The digest of a frame's contents, 32 bytes long. -/
structure Hash where
  digest : List UInt8 → List UInt8
  length_digest : ∀ contents, (digest contents).length = checksumBytes

/-- A digest that tells nothing apart. -/
def sampleHash : Hash := ⟨fun _ => List.replicate checksumBytes 0, fun _ => List.length_replicate⟩

/-! ## Encoding of a transaction -/

def encodeCheckpoint (checkpoint : DurableSinkCheckpoint) : List UInt8 :=
  toLE 16 checkpoint.topicPartition.topicId ++ toLE 4 checkpoint.topicPartition.partitionId ++
    toLE 8 checkpoint.nextPlacementSequence ++ toLE 8 checkpoint.nextOffset

/-- The length of something, if it fits four bytes. -/
def encodeLength (length : Nat) : TelemetryResult (List UInt8) :=
  if length < 2 ^ 32 then .ok (toLE 4 length) else .error .recordTooLarge

/-- The loop over the appends of a transaction. -/
def encodeAppends (partition : TopicPartition) : List DurableAppend → TelemetryResult (List UInt8)
  | [] => .ok []
  | append :: rest => do
    ensure (append.topicPartition = partition)
      (.corruptSinkJournal "transaction append belongs to another partition")
    let length ← encodeLength append.payload.length
    let encoded ← encodeAppends partition rest
    return toLE 4 append.physicalShardId ++ toLE 8 append.reservation.firstOffset ++ length ++
      append.payload ++ encoded

def encodeTransaction (expected : DurableSinkCheckpoint) (appends : List DurableAppend)
    (next : DurableSinkCheckpoint) : TelemetryResult (List UInt8) := do
  ensure (expected.topicPartition = next.topicPartition)
    (.corruptSinkJournal "transaction checkpoints refer to different partitions")
  let count ← encodeLength appends.length
  let encoded ← encodeAppends expected.topicPartition appends
  let payload := encodeCheckpoint expected ++ encodeCheckpoint next ++ count ++ encoded
  ensure (payload.length ≤ maxFrameBytes) .recordTooLarge
  return payload

/-! ## Decoding -/

/-- `read_u32`, `read_u64` and `read_u128`, by their width in bytes. -/
def readUint (width : Nat) : Reader TelemetryError Nat :=
  uint width (.corruptSinkJournal "journal frame is truncated")

def readCheckpoint : Reader TelemetryError DurableSinkCheckpoint := do
  let topicId ← readUint 16
  let partitionId ← readUint 4
  let nextPlacementSequence ← readUint 8
  let nextOffset ← readUint 8
  return ⟨⟨topicId, partitionId⟩, nextPlacementSequence, nextOffset⟩

def readAppend (shardId : Nat) (partition : TopicPartition) :
    Reader TelemetryError RecoveredAppend := do
  let observedShard ← readUint 4
  require (observedShard = shardId)
    (.corruptSinkJournal "journal frame belongs to another physical shard")
  let firstOffset ← readUint 8
  let payloadBytes ← readUint 4
  let payload ← take payloadBytes (.corruptSinkJournal "append payload is truncated")
  return ⟨partition, firstOffset, payload⟩

def readTransaction (shardId : Nat) : Reader TelemetryError RecoveredTransaction := do
  let expected ← readCheckpoint
  let next ← readCheckpoint
  require (expected.topicPartition = next.topicPartition)
    (.corruptSinkJournal "transaction checkpoints refer to different partitions")
  let count ← readUint 4
  let appends ← many (readAppend shardId expected.topicPartition) count
  return ⟨expected, next, appends⟩

def decodeTransaction (bytes : List UInt8) (shardId : Nat) :
    TelemetryResult RecoveredTransaction := do
  let (transaction, rest) ← readTransaction shardId bytes
  ensure rest.isEmpty (.corruptSinkJournal "journal frame has trailing bytes")
  return transaction

/-! ## The journal -/

/-- The bytes of the file, and how many of them are known to be on stable storage. -/
structure JournalFile where
  contents : List UInt8
  synced : Nat
  deriving DecidableEq

/-- How the writes of an append end.  A failed write leaves a part of the frame in the file. -/
inductive JournalIo where
  | done
  | writeFails (written : Nat) (reason : String)
  | syncFails (reason : String)
  deriving DecidableEq

structure SinkJournal where
  maxBytes : Nat
  syncEachAppend : Bool
  file : JournalFile
  bytes : Nat
  unsyncedBytes : Nat
  checkpoints : Checkpoints

section Hash

variable (hash : Hash)

/-- The bytes of the frame that holds an encoded transaction. -/
def frame (payload : List UInt8) : List UInt8 :=
  toLE 4 payload.length ++ payload ++ hash.digest payload

/-- Write a frame, and sync the file if every append is synced or enough is unsynced. -/
def SinkJournal.write (journal : SinkJournal) (io : JournalIo) (payload : List UInt8)
    (nextBytes : Nat) (next : DurableSinkCheckpoint) : TelemetryResult Unit × SinkJournal :=
  let written := journal.file.contents ++ frame hash payload
  let unsyncedBytes := saturatingAdd journal.unsyncedBytes (4 + payload.length + checksumBytes)
  let sync := journal.syncEachAppend || batchSyncBytes ≤ unsyncedBytes
  match io with
  | .writeFails count reason =>
    (.error (.storageIo s!"append transaction sink journal: {reason}"),
      { journal with file := { journal.file with
          contents := journal.file.contents ++ (frame hash payload).take count } })
  | .syncFails reason =>
    if sync then
      (.error (.storageIo s!"sync transaction batch sink journal: {reason}"),
        { journal with file := { journal.file with contents := written }, unsyncedBytes })
    else
      (.ok (), { journal with
        file := { journal.file with contents := written }, unsyncedBytes, bytes := nextBytes,
        checkpoints := journal.checkpoints.insert next })
  | .done =>
    (.ok (), { journal with
      file := ⟨written, if sync then written.length else journal.file.synced⟩
      unsyncedBytes := if sync then 0 else unsyncedBytes
      bytes := nextBytes
      checkpoints := journal.checkpoints.insert next })

def SinkJournal.append [StreamEngine] (journal : SinkJournal) (io : JournalIo)
    (expected : DurableSinkCheckpoint)
    (appends : List DurableAppend) (next : DurableSinkCheckpoint) :
    TelemetryResult Unit × SinkJournal :=
  match encodeTransaction expected appends next with
  | .error error => (.error error, journal)
  | .ok payload =>
    let actual := journal.checkpoints.actual expected.topicPartition
    if checkpointCovers actual next then (.ok (), journal)
    else if checkpointAllowsLaneGap actual expected then
      match checkedAdd journal.bytes (4 + payload.length + checksumBytes) with
      | none => (.error .recordTooLarge, journal)
      | some nextBytes =>
        if journal.maxBytes < nextBytes then
          (.error (.sinkJournalFull nextBytes journal.maxBytes), journal)
        else journal.write hash io payload nextBytes next
    else
      (.error (.corruptSinkJournal
        "journal append does not continue its durable checkpoint chain"), journal)

/-- The loop of `recover`: the transactions of the complete frames, and the position at which the
file is cut. -/
def recoverFrames (shardId : Nat) : Nat → Nat → List UInt8 → Checkpoints →
    TelemetryResult (List RecoveredTransaction × Nat)
  | 0, position, _, _ => .ok ([], position)
  | fuel + 1, position, rest, checkpoints =>
    -- a partial header is cut off
    if rest.length < 4 then .ok ([], position)
    else
      let length := ofLE (rest.take 4)
      let body := rest.drop 4
      if length = 0 ∨ maxFrameBytes < length then
        .error (.corruptSinkJournal "journal frame length is invalid")
      -- a partial frame is cut off
      else if body.length < length + checksumBytes then .ok ([], position)
      else if hash.digest (body.take length) ≠ (body.drop length).take checksumBytes then
        .error (.corruptSinkJournal "journal frame checksum is invalid")
      else do
        let transaction ← decodeTransaction (body.take length) shardId
        ensure ((checkpoints transaction.expected.topicPartition).all fun actual =>
            actual.nextPlacementSequence ≤ transaction.expected.nextPlacementSequence &&
              actual.nextOffset ≤ transaction.expected.nextOffset)
          (.corruptSinkJournal "journal checkpoint sequence or offset regressed")
        let (transactions, cut) ← recoverFrames shardId fuel
          (position + 4 + length + checksumBytes) (body.drop (length + checksumBytes))
          (checkpoints.insert transaction.next)
        return (transaction :: transactions, cut)

def recover (contents : List UInt8) (shardId maxBytes : Nat) :
    TelemetryResult (List RecoveredTransaction × Nat) := do
  ensure (contents.length ≤ maxBytes) (.sinkJournalFull contents.length maxBytes)
  ensure (magic.length ≤ contents.length)
    (.storageIo "read header sink journal: failed to fill whole buffer")
  ensure (contents.take magic.length = magic) (.corruptSinkJournal "journal magic is invalid")
  recoverFrames hash shardId (contents.length + 1) magic.length (contents.drop magic.length)
    fun _ => none

/-- The last checkpoint of each partition. -/
def lastCheckpoints (transactions : List RecoveredTransaction) : Checkpoints :=
  Checkpoints.insertAll (fun _ => none) (transactions.map (·.next))

/-- The file once an empty one got its header. -/
def initialized (contents : List UInt8) : List UInt8 :=
  if contents.isEmpty then magic else contents

/-- Open the journal over the file as it is found: an empty file gets its header, and an incomplete
frame at the end is cut off. -/
def SinkJournal.openFile (contents : List UInt8) (shardId maxBytes : Nat) (syncEachAppend : Bool) :
    TelemetryResult (SinkJournal × List RecoveredTransaction) := do
  ensure (magic.length ≤ maxBytes)
    (.invalidConfig "sink journal max bytes must fit its header")
  let (transactions, cut) ← recover hash (initialized contents) shardId maxBytes
  let contents := (initialized contents).take cut
  return ({ maxBytes, syncEachAppend, file := ⟨contents, contents.length⟩,
            bytes := contents.length, unsyncedBytes := 0,
            checkpoints := lastCheckpoints transactions }, transactions)

end Hash

end ShardTelemetry.Sink
