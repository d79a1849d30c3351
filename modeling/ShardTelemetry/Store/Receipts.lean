import Mathlib.Data.List.AList
import Mathlib.Data.List.Sort
import Mathlib.Order.Nat

/-!
# Receipts of retryable appends

A client may give an append a retry identifier.  The store keeps a receipt for it, pending while a
call appends, and complete, with the acknowledgement, once the append was made.  A complete receipt
is also a file, so that a restart recovers it.

This is `AppendReceiptCatalog`: the map in memory, its index by time, and the directory of receipt
files.  A file that was written or removed since the directory was last synced may be lost, or come
back, in a crash.  Identifiers are kept as the numbers they print, and the order of two identifiers
of the same length is the order of those numbers.
-/

namespace ShardTelemetry.Store

/-- Error of a request, by its kind. -/
inductive LokiApiError where
  | badRequest (message : String)
  | internal (message : String)
  | unavailable (message : String)
  | configuration (message : String)
  deriving DecidableEq

/-- `NATIVE_APPEND_RECEIPT_RETENTION` in nanoseconds. -/
def nativeAppendReceiptRetention : Nat := 24 * 60 * 60 * 1000000000

def maxNativeAppendReceipts : Nat := 65536

structure NativePartitionAck where
  topicId : Nat
  partitionId : Nat
  firstOffset : Nat
  lastOffset : Nat
  deriving DecidableEq

/-- One acknowledgement for each partition of a request. -/
structure NativeTelemetryAppendAck where
  partitions : List NativePartitionAck
  deriving DecidableEq

structure PersistedAppendReceipt where
  requestId : Nat
  payloadDigest : String
  recordedAtUnixNanos : Nat
  acknowledgement : NativeTelemetryAppendAck
  deriving DecidableEq

inductive AppendReceiptStateEntry where
  | pending (payloadDigest : String)
  | complete (receipt : PersistedAppendReceipt)
  deriving DecidableEq

structure AppendReceiptState where
  receipts : AList fun _ : Nat => AppendReceiptStateEntry
  /-- When each complete receipt was recorded, with its identifier, in this order. -/
  completedByTime : List (Nat × Nat)

/-- The directory of receipt files, as it is and as it was when it was last synced, and the journal
of an older version. -/
structure ReceiptDirectory where
  files : List PersistedAppendReceipt
  synced : List PersistedAppendReceipt
  legacy : Option (Nat × List PersistedAppendReceipt)
  deriving DecidableEq

/-- How writing a receipt file ends.  A failure after the rename leaves the file in the
directory. -/
inductive PersistIo where
  | done
  | fails (renamed : Bool) (reason : String)
  deriving DecidableEq

/-- The environment's choices for the files of one call. -/
structure ReceiptIo where
  /-- Whether the file of an identifier can be removed. -/
  removes : Nat → Bool
  persists : Nat → PersistIo

def receiptIoError (reason : String) : LokiApiError :=
  .internal s!"native append receipt journal I/O failed: {reason}"

/-! ## The directory -/

namespace ReceiptDirectory

/-- The files of one identifier; there is at most one. -/
def ofRequest (requestId : Nat) (files : List PersistedAppendReceipt) :
    List PersistedAppendReceipt :=
  files.filter (·.requestId = requestId)

def remove (io : ReceiptIo) (requestId : Nat) (directory : ReceiptDirectory) :
    Except LokiApiError Unit × ReceiptDirectory :=
  if io.removes requestId ∧ ReceiptDirectory.ofRequest requestId directory.files ≠ [] then
    (.ok (), { directory with files := directory.files.filter (·.requestId ≠ requestId) })
  else (.error (receiptIoError "file cannot be removed"), directory)

/-- `persist_receipt`: write a temporary file, rename it and sync the directory. -/
def persistReceipt (io : ReceiptIo) (receipt : PersistedAppendReceipt)
    (directory : ReceiptDirectory) : Except LokiApiError Unit × ReceiptDirectory :=
  let files := receipt :: directory.files.filter (·.requestId ≠ receipt.requestId)
  match io.persists receipt.requestId with
  | .done => (.ok (), { directory with files, synced := files })
  | .fails renamed reason =>
    (.error (receiptIoError reason), if renamed then { directory with files } else directory)

/-- What a crash leaves: of each identifier the present file, or what there was at the last sync. -/
def crash (kept : Nat → Bool) (directory : ReceiptDirectory) : ReceiptDirectory :=
  let files :=
    directory.files.filter (kept ·.requestId) ++ directory.synced.filter (!kept ·.requestId)
  { directory with files, synced := files }

end ReceiptDirectory

/-! ## The catalog -/

/-- Order of `completed_by_time`. -/
def recordedBefore (left right : Nat × Nat) : Prop :=
  left.1 < right.1 ∨ left.1 = right.1 ∧ left.2 ≤ right.2

instance : DecidableRel recordedBefore := fun _ _ => inferInstanceAs (Decidable (_ ∨ _))

/-- Insert into the index by time. -/
def insertByTime (entry : Nat × Nat) (index : List (Nat × Nat)) : List (Nat × Nat) :=
  if entry ∈ index then index else index.orderedInsert recordedBefore entry

/-- The loop of `prune_locked` over the index by time. -/
def pruneLoop (io : ReceiptIo) (cutoff maximum : Nat) :
    List (Nat × Nat) → (AList fun _ : Nat => AppendReceiptStateEntry) → ReceiptDirectory →
      Except LokiApiError Unit × AppendReceiptState × ReceiptDirectory
  | [], receipts, directory => (.ok (), ⟨receipts, []⟩, directory)
  | (recordedAt, requestId) :: rest, receipts, directory =>
    if recordedAt < cutoff ∨ maximum < rest.length + 1 then
      match receipts.lookup requestId with
      | some (.complete receipt) =>
        match directory.remove io receipt.requestId with
        | (.error error, directory) => (.error error, ⟨receipts.erase requestId, rest⟩, directory)
        | (.ok (), directory) =>
          pruneLoop io cutoff maximum rest (receipts.erase requestId) directory
      | _ =>
        (.error (.internal "native append receipt indexes are inconsistent"),
          ⟨receipts.erase requestId, rest⟩, directory)
    else (.ok (), ⟨receipts, (recordedAt, requestId) :: rest⟩, directory)

namespace AppendReceiptState

def pruneLocked (io : ReceiptIo) (cutoff maximum : Nat) (state : AppendReceiptState)
    (directory : ReceiptDirectory) :
    Except LokiApiError Unit × AppendReceiptState × ReceiptDirectory :=
  pruneLoop io cutoff maximum state.completedByTime state.receipts directory

/-- What looking for a receipt leads to; a pending one makes the caller wait. -/
inductive Reservation where
  | existing (acknowledgement : NativeTelemetryAppendAck)
  | reserved
  | waits
  deriving DecidableEq

def reusedError : LokiApiError :=
  .badRequest "native retry ID was reused with different telemetry content"

/-- One round of the loop in `reserve`. -/
def reserve (io : ReceiptIo) (now requestId : Nat) (payloadDigest : String)
    (state : AppendReceiptState) (directory : ReceiptDirectory) :
    Except LokiApiError Reservation × AppendReceiptState × ReceiptDirectory :=
  match state.receipts.lookup requestId with
  | some (.complete receipt) =>
    if receipt.payloadDigest ≠ payloadDigest then (.error reusedError, state, directory)
    else (.ok (.existing receipt.acknowledgement), state, directory)
  | some (.pending pendingDigest) =>
    if pendingDigest ≠ payloadDigest then (.error reusedError, state, directory)
    else (.ok .waits, state, directory)
  | none =>
    match state.pruneLocked io (now - nativeAppendReceiptRetention) (maxNativeAppendReceipts - 1)
        directory with
    | (.error error, state, directory) => (.error error, state, directory)
    | (.ok (), state, directory) =>
      if maxNativeAppendReceipts ≤ state.receipts.entries.length then
        (.error (.unavailable "native append idempotency window is at capacity"), state, directory)
      else
        (.ok .reserved,
          { state with receipts := state.receipts.insert requestId (.pending payloadDigest) },
          directory)

/-- The part of `complete` after the receipt was persisted. -/
def completeLocked (receipt : PersistedAppendReceipt) (state : AppendReceiptState) :
    Except LokiApiError Unit × AppendReceiptState :=
  let removed := { state with receipts := state.receipts.erase receipt.requestId }
  match state.receipts.lookup receipt.requestId with
  | some (.pending _) =>
    (.ok (),
      { receipts := removed.receipts.insert receipt.requestId (.complete receipt)
        completedByTime :=
          insertByTime (receipt.recordedAtUnixNanos, receipt.requestId) state.completedByTime })
  | some (.complete _) =>
    (.error (.internal "native append receipt completed more than once"), removed)
  | none => (.error (.internal "native append receipt reservation disappeared"), removed)

def abandon (requestId : Nat) (state : AppendReceiptState) : AppendReceiptState :=
  match state.receipts.lookup requestId with
  | some (.pending _) => { state with receipts := state.receipts.erase requestId }
  | _ => state

/-- A receipt of a journal.  Identifiers are numbers and digests are those of payloads, so the
lengths of their texts are not checked here. -/
def insertRecovered (state : AppendReceiptState) (receipt : PersistedAppendReceipt) :
    Except LokiApiError AppendReceiptState :=
  if receipt.requestId ∈ state.receipts then
    .error (.configuration
      "native append receipt journal contains an invalid or duplicate receipt")
  else
    .ok { receipts := state.receipts.insert receipt.requestId (.complete receipt)
          completedByTime :=
            insertByTime (receipt.recordedAtUnixNanos, receipt.requestId) state.completedByTime }

def empty : AppendReceiptState := ⟨∅, []⟩

end AppendReceiptState

/-! ## Opening -/

/-- The receipts start-up reads: those of the files, or without any file those of the journal of an
older version. -/
def ReceiptDirectory.recovered (directory : ReceiptDirectory) :
    Except LokiApiError (List PersistedAppendReceipt) :=
  match directory.files, directory.legacy with
  | [], some (version, receipts) =>
    if version = 1 then .ok receipts
    else .error (.configuration "unsupported native append receipt journal version")
  | files, _ => .ok files

/-- Write the files that are missing. -/
def persistMissing (io : ReceiptIo) : List PersistedAppendReceipt → ReceiptDirectory →
    Except LokiApiError Unit × ReceiptDirectory
  | [], directory => (.ok (), directory)
  | receipt :: rest, directory =>
    if ReceiptDirectory.ofRequest receipt.requestId directory.files = [] then
      match directory.persistReceipt io receipt with
      | (.error error, directory) => (.error error, directory)
      | (.ok (), directory) => persistMissing io rest directory
    else persistMissing io rest directory

/-- The complete receipts of a catalog. -/
def AppendReceiptState.completed (state : AppendReceiptState) : List PersistedAppendReceipt :=
  state.receipts.entries.filterMap fun entry =>
    match entry.2 with
    | .complete receipt => some receipt
    | .pending _ => none

/-- `AppendReceiptCatalog::open`. -/
def ReceiptDirectory.openCatalog (io : ReceiptIo) (now : Nat) (directory : ReceiptDirectory) :
    Except LokiApiError AppendReceiptState × ReceiptDirectory :=
  match directory.recovered.bind fun receipts =>
      receipts.foldlM AppendReceiptState.insertRecovered .empty with
  | .error error => (.error error, directory)
  | .ok state =>
    match state.pruneLocked io (now - nativeAppendReceiptRetention) maxNativeAppendReceipts
        directory with
    | (.error error, _, directory) => (.error error, directory)
    | (.ok (), state, directory) =>
      match persistMissing io state.completed directory with
      | (.error error, directory) => (.error error, directory)
      | (.ok (), directory) => (.ok state, directory)

end ShardTelemetry.Store
