import ShardTelemetry.Tier.Protocol
import ShardTelemetry.Lib.Run

/-!
# Instances of the tier on one store

Any number of `TelemetryObjectTier` instances work on one namespace.  An instance is down, idle with
its in-memory state, or in the middle of `open` or of a call.  One event is one step: an instance
starts a call, performs the next effect of its program, returns or crashes, or a reader takes,
clones or drops a lease.  The choices of the environment are part of the event.
-/

namespace ShardTelemetry.Tier

variable {β : Type}

/-- A call on an open tier. -/
inductive Call where
  | publishGroup (source : TierGroupSource)
  | retainSinceTimestamp (cutoff : Nat)
  | reclaimRetiredObjects

/-- The method a call runs; its result is not kept. -/
def Call.command (C : Codec β) : Call → TierM β Unit
  | .publishGroup source => do let _ ← Tier.publishGroup C source
  | .retainSinceTimestamp cutoff => do let _ ← Tier.retainSinceTimestamp C cutoff
  | .reclaimRetiredObjects => Tier.reclaimRetiredObjects

/-- The rest of a running method. -/
abbrev Program (β : Type) : Type :=
  Prog (Effect β) Response (TelemetryResult Unit × TelemetryObjectTier)

/-- One instance of the tier. -/
inductive Process (β : Type) where
  | down
  | idle (tier : TelemetryObjectTier)
  | opening (program : Program β)
  | calling (program : Program β)

structure World (β : Type) where
  shared : Shared β
  processes : Nat → Process β

/-- Nothing is stored and no instance runs. -/
def World.initial : World β := ⟨.initial, fun _ => .down⟩

inductive Event (β : Type) where
  | openCatalog (writer : Nat) (config : ObjectTierConfig)
  | call (writer : Nat) (call : Call)
  | perform (writer : Nat) (choice : Choice β)
  | returns (writer : Nat)
  | crash (writer : Nat)
  | lease (writer : Nat)
  | cloneLease (index : Nat)
  | dropLease (index : Nat)

def World.update (world : World β) (writer : Nat) (process : Process β) : World β :=
  { world with processes := Function.update world.processes writer process }

section Step

variable [DecidableEq β] (C : Codec β) (space : Namespace)

/-- Perform the next effect of a program. -/
def World.advance (world : World β) (writer : Nat) (choice : Choice β)
    (resume : Program β → Process β) : Program β → Option (World β)
  | .ret _ => none
  | .vis effect next =>
    let (response, shared) := world.shared.perform C writer choice effect
    some { shared, processes := Function.update world.processes writer (resume (next response)) }

/-- What performing the next effect does. -/
theorem World.advance_eq_some {C : Codec β} {w w' : World β}
    (h : w.advance C writer choice resume program = some w') :
    ∃ effect next r sh, program = .vis effect next ∧
      w.shared.perform C writer choice effect = (r, sh) ∧
      w' = ⟨sh, Function.update w.processes writer (resume (next r))⟩ := by
  cases program with
  | ret res => cases h
  | vis effect next => exact ⟨effect, next, _, _, rfl, rfl, (Option.some.inj h).symm⟩

/-- One event. -/
def World.step (world : World β) : Event β → Option (World β)
  | .openCatalog writer config =>
    match world.processes writer with
    | .down => some (world.update writer (.opening ((openCatalog C).exec (.blank space config))))
    | _ => none
  | .call writer call =>
    match world.processes writer with
    | .idle tier => some (world.update writer (.calling ((call.command C).exec tier)))
    | _ => none
  | .perform writer choice =>
    match world.processes writer with
    | .opening program => world.advance C writer choice .opening program
    | .calling program => world.advance C writer choice .calling program
    | _ => none
  | .returns writer =>
    match world.processes writer with
    | .opening (.ret (.ok (), tier)) => some (world.update writer (.idle tier))
    | .opening (.ret (.error _, _)) => some (world.update writer .down)
    | .calling (.ret (_, tier)) => some (world.update writer (.idle tier))
    | _ => none
  | .crash writer =>
    some { shared := { world.shared with
             leases := world.shared.leases.filter (·.owner ≠ writer) }
           processes := Function.update world.processes writer .down }
  | .lease writer =>
    match world.processes writer with
    | .idle tier => some { world with shared := { world.shared with
        leases :=
          world.shared.leases ++ [⟨writer, tier.rootHandle, tier.root, tier.currentRootKey⟩] } }
    | _ => none
  | .cloneLease index =>
    (world.shared.leases[index]?).map fun lease =>
      { world with shared := { world.shared with leases := world.shared.leases ++ [lease] } }
  | .dropLease index =>
    some { world with shared := { world.shared with leases := world.shared.leases.eraseIdx index } }

end Step

/-! ## A small instance

Files are numbers, which are also their lengths and digests.  The digests of control objects
separate the objects of a short run. -/

def sampleCodec : Codec Nat where
  size
    | .artifact contents => contents
    | _ => 100
  digest
    | .artifact contents => contents
    | .manifest manifest => 1000 + manifest.groupSequence
    | .page page => 2000 + page.groups.length + 100 * page.pageSequence
    | .root root => 3000 + root.generation
    | .pointer pointer => 4000 + pointer.generation
    | .transaction transaction => 5000 + transaction.targetGeneration

def sampleSpace : Namespace := ⟨1, 1, 1⟩

/-- No retirement grace, a transaction lease of one millisecond. -/
def sampleConfig : ObjectTierConfig where
  targetGroupPayloadBytes := 1
  maxGroupPayloadBytes := 1000
  maxBlocksPerGroup := 10
  groupsPerPage := 10
  maxControlObjectBytes := 65536
  maxRetiredObjects := 10
  retirementGrace := 0
  transactionLease := 1000000

def sampleBlock (blockId : Nat) : TierBlockEntry where
  blockId
  sourceCompressionCohort := 0
  placementId := 0
  dictionaryId := none
  compressionCodec := "zstd"
  compressionLevel := 3
  firstOffset := blockId
  lastOffset := blockId
  recordCount := 1
  sourceBytes := 10
  structuralBytes := 10
  storedBytes := 10
  minTimestampUnixNanos := 5
  maxTimestampUnixNanos := 5
  compressionTemperature := 0
  compressionShapeHash := 0
  compressionTemperatureVarianceQ8 := 0
  maxCompressionTemperatureDeviation := 0
  payloadOffset := 0
  payloadBytes := 10
  payloadChecksum := 7
  minSignalIdentity := none
  maxSignalIdentity := none
  correlationFilter := none

/-- A group of one block. -/
def sampleSource (sequence : Nat) : TierGroupSource where
  groupSequence := sequence
  checkpoint := ⟨sequence, sequence + 1⟩
  blocks := [sampleBlock sequence]
  artifacts := [⟨.payloadPack, "pack", "pack"⟩, ⟨.queryIndex, "index", "index"⟩]

/-- Nothing fails; the clock and the transaction counter are given. -/
def sampleChoice (clock counter : Nat) : Choice Nat := ⟨none, 10, clock, ⟨1, 1, counter⟩⟩

/-- An instance performs a number of effects. -/
def performs (writer count : Nat) (choice : Choice β) : List (Event β) :=
  (List.replicate count choice).map (.perform writer)

end ShardTelemetry.Tier
