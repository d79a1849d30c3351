import ShardTelemetry.Lib.Run
import ShardTelemetry.Store.Receipts

/-!
# Retryable appends

Any number of calls run at once.  A call passes the append gate, reserves its identifier, appends,
waits for the index if it was asked to, persists the receipt, and completes it; whenever one of
these steps fails it abandons the reservation and returns the error.  The process may crash at any
time and open the catalog again.

The log of the engine is what is durable of the appends.  The engine may refuse an append, or report
an error for one that it made durable.
-/

namespace ShardTelemetry.Store

/-- What a client asks for.  The payload is the whole encoded append: partition, record count,
envelope and transient context are read from it. -/
structure AppendCall where
  retryId : Nat
  payload : List UInt8
  waitForIndex : Bool
  deriving DecidableEq

/-- Where a call is. -/
inductive Phase where
  | idle
  /-- Admitted; it looks for the receipt, or waits until a pending one changes. -/
  | reserving (call : AppendCall)
  /-- It holds the reservation and has not appended. -/
  | reserved (call : AppendCall)
  /-- The engine acknowledged the append. -/
  | appended (call : AppendCall) (acknowledgement : NativePartitionAck)
  /-- The append is done as far as the caller asked for. -/
  | completing (call : AppendCall) (acknowledgement : NativeTelemetryAppendAck)
  /-- The receipt file is written. -/
  | persisted (call : AppendCall) (receipt : PersistedAppendReceipt)
  /-- A step failed; the reservation is still held. -/
  | failing (call : AppendCall) (error : LokiApiError)
  | returned (call : AppendCall) (result : Except LokiApiError NativeTelemetryAppendAck)
  deriving DecidableEq

/-- A durable append. -/
structure LogEntry where
  call : AppendCall
  acknowledgement : NativePartitionAck
  deriving DecidableEq

structure World where
  /-- The catalog in memory, while the process runs. -/
  catalog : Option AppendReceiptState
  directory : ReceiptDirectory
  log : List LogEntry
  calls : Nat → Phase

/-- How the engine ends an append. -/
inductive EngineAppend where
  | acknowledged (acknowledgement : NativePartitionAck)
  | refused (error : LokiApiError)
  /-- The append is durable, and an error is reported. -/
  | unacknowledged (acknowledgement : NativePartitionAck) (error : LokiApiError)
  deriving DecidableEq

inductive Event where
  /-- A call arrives; the append gate may refuse it. -/
  | call (id : Nat) (call : AppendCall) (refusal : Option LokiApiError)
  | reserve (id now : Nat) (io : ReceiptIo)
  | append (id : Nat) (outcome : EngineAppend)
  /-- Waiting for the index ends, if the call waits for it. -/
  | await (id : Nat) (failure : Option LokiApiError)
  | persist (id now : Nat) (io : ReceiptIo)
  | complete (id : Nat)
  | abandon (id : Nat)
  /-- A retention pass. -/
  | retain (cutoff : Nat) (io : ReceiptIo)
  | crash (kept : Nat → Bool)
  | restart (now : Nat) (io : ReceiptIo)

namespace World

/-- Nothing was appended yet. -/
def initial (directory : ReceiptDirectory) : World := ⟨none, directory, [], fun _ => .idle⟩

def setCall (world : World) (id : Nat) (phase : Phase) : World :=
  { world with calls := Function.update world.calls id phase }

/-- `reserve`, and what the call does with the outcome. -/
def reserve (digest : List UInt8 → String) (world : World) (id now : Nat) (io : ReceiptIo)
    (call : AppendCall) (state : AppendReceiptState) : World :=
  match state.reserve io now call.retryId (digest call.payload) world.directory with
  | (result, state, directory) =>
    let world := { world with catalog := some state, directory }
    match result with
    | .ok (.existing acknowledgement) => world.setCall id (.returned call (.ok acknowledgement))
    | .ok .reserved => world.setCall id (.reserved call)
    | .ok .waits => world
    | .error error => world.setCall id (.returned call (.error error))

/-- An append became durable. -/
def addLog (world : World) (entry : LogEntry) : World := { world with log := world.log ++ [entry] }

def append (world : World) (id : Nat) (call : AppendCall) : EngineAppend → World
  | .acknowledged acknowledgement =>
    (world.addLog ⟨call, acknowledgement⟩).setCall id (.appended call acknowledgement)
  | .refused error => world.setCall id (.failing call error)
  | .unacknowledged acknowledgement error =>
    (world.addLog ⟨call, acknowledgement⟩).setCall id (.failing call error)

def await (world : World) (id : Nat) (call : AppendCall) (acknowledgement : NativePartitionAck)
    (failure : Option LokiApiError) : World :=
  match call.waitForIndex, failure with
  | true, some error => world.setCall id (.failing call error)
  | _, _ => world.setCall id (.completing call ⟨[acknowledgement]⟩)

def persist (digest : List UInt8 → String) (world : World) (id now : Nat) (io : ReceiptIo)
    (call : AppendCall) (acknowledgement : NativeTelemetryAppendAck) : World :=
  let receipt : PersistedAppendReceipt := ⟨call.retryId, digest call.payload, now, acknowledgement⟩
  match world.directory.persistReceipt io receipt with
  | (.ok (), directory) => { world with directory }.setCall id (.persisted call receipt)
  | (.error error, directory) => { world with directory }.setCall id (.failing call error)

def complete (world : World) (id : Nat) (call : AppendCall) (receipt : PersistedAppendReceipt)
    (state : AppendReceiptState) : World :=
  match state.completeLocked receipt with
  | (.ok (), state) =>
    { world with catalog := some state }.setCall id (.returned call (.ok receipt.acknowledgement))
  | (.error error, state) =>
    { world with catalog := some state }.setCall id (.failing call error)

/-- One event. -/
def step (digest : List UInt8 → String) (world : World) (event : Event) : Option World :=
  match event, world.catalog with
  | .call id call refusal, some _ =>
    if world.calls id = .idle then
      some (world.setCall id (refusal.elim (.reserving call) fun error =>
        .returned call (.error error)))
    else none
  | .reserve id now io, some state =>
    match world.calls id with
    | .reserving call => some (world.reserve digest id now io call state)
    | _ => none
  | .append id outcome, some _ =>
    match world.calls id with
    | .reserved call => some (world.append id call outcome)
    | _ => none
  | .await id failure, some _ =>
    match world.calls id with
    | .appended call acknowledgement => some (world.await id call acknowledgement failure)
    | _ => none
  | .persist id now io, some _ =>
    match world.calls id with
    | .completing call acknowledgement => some (world.persist digest id now io call acknowledgement)
    | _ => none
  | .complete id, some state =>
    match world.calls id with
    | .persisted call receipt => some (world.complete id call receipt state)
    | _ => none
  | .abandon id, some state =>
    match world.calls id with
    | .failing call error =>
      some ({ world with catalog := some (state.abandon call.retryId) }.setCall id
        (.returned call (.error error)))
    | _ => none
  | .retain cutoff io, some state =>
    match state.pruneLocked io cutoff maxNativeAppendReceipts world.directory with
    | (_, state, directory) => some { world with catalog := some state, directory }
  | .crash kept, _ =>
    some { world with
      catalog := none, directory := world.directory.crash kept, calls := fun _ => .idle }
  | .restart now io, none =>
    match world.directory.openCatalog io now with
    | (.ok state, directory) => some { world with catalog := some state, directory }
    | (.error _, directory) => some { world with directory }
  | _, _ => none

end World

end ShardTelemetry.Store
