import ShardTelemetry.Store.Retry
import ShardTelemetry.Store.ReceiptSteps

/-!
# A retry identifier appends at most once

Everything here is about one identifier.  Other calls only matter as far as they could touch what
belongs to it, so the store is first cut down to the view of the identifier: its entry in the
catalog, its appends, its receipt file, and the calls that carry it.  `Next` says what can happen to
this view, and `Stage` is what every such step preserves.

What breaks the guarantee is a failure between the durable append and the durable receipt.  The call
abandons the reservation and reports an error, or the process crashes, and the next call finds
nothing of the append.  A retention pass with a short window does the same.
-/

namespace ShardTelemetry.Store

open Function

open ReceiptDirectory (ofRequest Agrees)

/-! ## The view of one identifier -/

/-- The call a phase belongs to. -/
def Phase.call : Phase → Option AppendCall
  | .idle => none
  | .reserving call | .reserved call | .appended call _ | .completing call _ | .persisted call _
  | .failing call _ | .returned call _ => some call

/-- The phase, if it belongs to a call with this identifier. -/
def Phase.restrict (requestId : Nat) (phase : Phase) : Phase :=
  if phase.call.any (·.retryId = requestId) then phase else .idle

/-- What concerns one identifier. -/
structure View where
  /-- Its entry in the catalog, while the process runs. -/
  entry : Option (Option AppendReceiptStateEntry)
  log : List LogEntry
  files : List PersistedAppendReceipt
  calls : Nat → Phase

def World.view (requestId : Nat) (world : World) : View where
  entry := world.catalog.map (·.receipts.lookup requestId)
  log := world.log.filter (·.call.retryId = requestId)
  files := ofRequest requestId world.directory.files
  calls id := (world.calls id).restrict requestId

def View.setCall (view : View) (id : Nat) (phase : Phase) : View :=
  { view with calls := update view.calls id phase }

def View.addLog (view : View) (entry : LogEntry) : View := { view with log := view.log ++ [entry] }

/-- What can happen to an identifier while nothing fails between its append and its receipt. -/
inductive View.Next (digest : List UInt8 → String) : View → View → Prop
  /-- Something that does not concern it. -/
  | same (view : View) : Next digest view view
  /-- A call arrives. -/
  | arrive {view : View} {id : Nat} {call : AppendCall} : view.entry ≠ none →
      view.calls id = .idle → Next digest view (view.setCall id (.reserving call))
  /-- A call finds the receipt of what it asks for. -/
  | answer {view : View} {id : Nat} {call : AppendCall} {receipt : PersistedAppendReceipt} :
      view.calls id = .reserving call → view.entry = some (some (.complete receipt)) →
      receipt.payloadDigest = digest call.payload →
      Next digest view (view.setCall id (.returned call (.ok receipt.acknowledgement)))
  /-- A call finds a receipt or a reservation for something else, or no room for its own. -/
  | refuse {view : View} {id : Nat} {call : AppendCall} {error : LokiApiError} :
      view.calls id = .reserving call → view.entry ≠ none →
      (∀ receipt, view.entry = some (some (.complete receipt)) →
        receipt.payloadDigest ≠ digest call.payload) →
      Next digest view (view.setCall id (.returned call (.error error)))
  /-- A call reserves the identifier. -/
  | reserve {view : View} {id : Nat} {call : AppendCall} :
      view.calls id = .reserving call → view.entry = some none →
      Next digest view
        ({ view with entry := some (some (.pending (digest call.payload))) }.setCall id
          (.reserved call))
  /-- The engine makes the append durable and acknowledges it. -/
  | append {view : View} {id : Nat} {call : AppendCall} {acknowledgement : NativePartitionAck} :
      view.calls id = .reserved call →
      Next digest view
        ((view.addLog ⟨call, acknowledgement⟩).setCall id (.appended call acknowledgement))
  /-- The engine refuses the append. -/
  | decline {view : View} {id : Nat} {call : AppendCall} {error : LokiApiError} :
      view.calls id = .reserved call →
      Next digest view (view.setCall id (.failing call error))
  /-- The append is indexed, or the call does not wait for that. -/
  | await {view : View} {id : Nat} {call : AppendCall} {acknowledgement : NativePartitionAck} :
      view.calls id = .appended call acknowledgement →
      Next digest view (view.setCall id (.completing call ⟨[acknowledgement]⟩))
  /-- The receipt becomes durable. -/
  | persist {view : View} {id : Nat} {call : AppendCall}
      {acknowledgement : NativeTelemetryAppendAck} (now : Nat) :
      view.calls id = .completing call acknowledgement →
      Next digest view
        (View.setCall
          { view with files := [⟨call.retryId, digest call.payload, now, acknowledgement⟩] } id
          (.persisted call ⟨call.retryId, digest call.payload, now, acknowledgement⟩))
  /-- The reservation turns into the receipt. -/
  | complete {view : View} {id : Nat} {call : AppendCall} {receipt : PersistedAppendReceipt}
      {payloadDigest : String} :
      view.calls id = .persisted call receipt →
      view.entry = some (some (.pending payloadDigest)) →
      Next digest view ({ view with entry := some (some (.complete receipt)) }.setCall id
        (.returned call (.ok receipt.acknowledgement)))
  /-- A call that failed gives its reservation up. -/
  | abandon {view : View} {id : Nat} {call : AppendCall} {error : LokiApiError}
      {payloadDigest : String} :
      view.calls id = .failing call error → view.entry = some (some (.pending payloadDigest)) →
      Next digest view
        ({ view with entry := some none }.setCall id (.returned call (.error error)))
  /-- The process crashes while no append is without its receipt. -/
  | crash {view : View} :
      (∀ id call acknowledgement, view.calls id ≠ .appended call acknowledgement) →
      (∀ id call acknowledgement, view.calls id ≠ .completing call acknowledgement) →
      Next digest view { view with entry := none, calls := fun _ => .idle }
  /-- The catalog is opened. -/
  | restart {view : View} : view.entry = none →
      Next digest view { view with entry := some (view.files.head?.map .complete) }

theorem View.Next.of_eq (h : view' = view) : View.Next digest view view' := by
  subst h
  exact .same _

/-! ## How far an identifier has come -/

/-- Nothing is held and nothing was acknowledged. -/
def Phase.Quiet : Phase → Prop
  | .idle | .reserving _ | .returned _ (.error _) => True
  | _ => False

/-- Nothing is held, and what was acknowledged is the receipt of the same payload. -/
def Phase.Answered (digest : List UInt8 → String) (receipt : PersistedAppendReceipt) : Phase → Prop
  | .returned call (.ok acknowledgement) => receipt.payloadDigest = digest call.payload ∧
    acknowledgement = receipt.acknowledgement
  | phase => phase.Quiet

theorem Phase.Quiet.answered {phase : Phase} (h : phase.Quiet) (digest)
    (rcpt) : phase.Answered digest rcpt := by
  cases phase with
  | returned call res =>
    cases res with
    | error error => exact trivial
    | ok ack => cases h
  | _ => exact h

/-- The receipt of a call. -/
def AppendCall.receipt (digest : List UInt8 → String) (call : AppendCall) (now : Nat)
    (acknowledgement : NativePartitionAck) : PersistedAppendReceipt :=
  ⟨call.retryId, digest call.payload, now, ⟨[acknowledgement]⟩⟩

/-- The stages of an identifier. -/
inductive View.Stage (digest : List UInt8 → String) (view : View) : Prop
  /-- Nothing was appended, and no call holds the identifier. -/
  | unmade (log : view.log = []) (files : view.files = [])
      (entry : view.entry = none ∨ view.entry = some none) (calls : ∀ id, (view.calls id).Quiet)
  /-- A call holds it and has not appended, or is giving up without having appended. -/
  | reserved (id : Nat) (call : AppendCall) (log : view.log = []) (files : view.files = [])
      (entry : view.entry = some (some (.pending (digest call.payload))))
      (holder : view.calls id = .reserved call ∨ ∃ error, view.calls id = .failing call error)
      (others : ∀ other ≠ id, (view.calls other).Quiet)
  /-- A call appended and has no receipt yet. -/
  | made (id : Nat) (call : AppendCall) (acknowledgement : NativePartitionAck)
      (log : view.log = [⟨call, acknowledgement⟩]) (files : view.files = [])
      (entry : view.entry = some (some (.pending (digest call.payload))))
      (holder : view.calls id = .appended call acknowledgement ∨
        view.calls id = .completing call ⟨[acknowledgement]⟩)
      (others : ∀ other ≠ id, (view.calls other).Quiet)
  /-- Its receipt is durable. -/
  | written (id : Nat) (call : AppendCall) (acknowledgement : NativePartitionAck) (now : Nat)
      (log : view.log = [⟨call, acknowledgement⟩])
      (files : view.files = [call.receipt digest now acknowledgement])
      (entry : view.entry = some (some (.pending (digest call.payload))))
      (holder : view.calls id = .persisted call (call.receipt digest now acknowledgement))
      (others : ∀ other ≠ id, (view.calls other).Quiet)
  /-- The catalog holds the receipt, or finds it when it is opened. -/
  | recorded (call : AppendCall) (acknowledgement : NativePartitionAck) (now : Nat)
      (log : view.log = [⟨call, acknowledgement⟩])
      (files : view.files = [call.receipt digest now acknowledgement])
      (entry : view.entry = none ∨
        view.entry = some (some (.complete (call.receipt digest now acknowledgement))))
      (calls : ∀ id, (view.calls id).Answered digest (call.receipt digest now acknowledgement))

section Stage

variable {view : View} {id : Nat} {calls : Nat → Phase}

/-- A call that holds nothing goes on to hold nothing. -/
theorem quiet_update {holder : Nat} (h : ∀ other ≠ holder, (calls other).Quiet)
    (hphase : id ≠ holder → phase.Quiet) : ∀ other ≠ holder, (update calls id phase other).Quiet :=
  (forall_update_iff calls fun other phase => other ≠ holder → phase.Quiet).mpr
    ⟨hphase, fun other _ => h other⟩

theorem quiet_update_all (h : ∀ other ≠ id, (calls other).Quiet)
    (hphase : phase.Quiet) : ∀ other, (update calls id phase other).Quiet :=
  (forall_update_iff calls fun _ phase => phase.Quiet).mpr ⟨hphase, h⟩

theorem answered_update (h : ∀ other ≠ id, (calls other).Answered digest rcpt)
    (hphase : phase.Answered digest rcpt) :
    ∀ other, (update calls id phase other).Answered digest rcpt :=
  (forall_update_iff calls fun _ phase => phase.Answered digest rcpt).mpr ⟨hphase, h⟩

/-- The one that holds the identifier moves on. -/
theorem quiet_update_holder (h : ∀ other ≠ id, (calls other).Quiet)
    (phase) : ∀ other ≠ id, (update calls id phase other).Quiet :=
  quiet_update h fun hne => absurd rfl hne

/-- A call that was quiet takes a quiet step, whatever the stage. -/
theorem View.Stage.setQuiet (h : view.Stage digest) (hquiet : (view.calls id).Quiet)
    (hphase : phase.Quiet) : (view.setCall id phase).Stage digest := by
  -- the holder, if there is one, is another call
  have hother : ∀ {holder old}, view.calls holder = old → ¬ old.Quiet →
      (view.setCall id phase).calls holder = old := by
    rintro holder _ rfl hloud
    refine update_of_ne ?_ _ _
    rintro rfl
    exact hloud hquiet
  cases h with
  | unmade log files entry calls =>
    exact .unmade log files entry (quiet_update_all (fun other _ => calls other) hphase)
  | reserved holder call log files entry hholder others =>
    refine .reserved holder call log files entry ?_ (quiet_update others fun _ => hphase)
    exact hholder.imp (hother · not_false) fun ⟨error, hholder⟩ => ⟨error, hother hholder not_false⟩
  | made holder call ack log files entry hholder others =>
    refine .made holder call ack log files entry ?_ (quiet_update others fun _ => hphase)
    exact hholder.imp (hother · not_false) (hother · not_false)
  | written holder call ack now log files entry hholder others =>
    exact .written holder call ack now log files entry (hother hholder not_false)
      (quiet_update others fun _ => hphase)
  | recorded call ack now log files entry calls =>
    exact .recorded call ack now log files entry
      (answered_update (fun other _ => calls other) (hphase.answered digest _))

/-- The receipt of the identifier is recorded, and its calls are answered with it. -/
structure View.Recorded (digest : List UInt8 → String) (receipt : PersistedAppendReceipt)
    (view : View) : Prop where
  files : view.files = [receipt]
  entry : view.entry = none ∨ view.entry = some (some (.complete receipt))
  calls : ∀ id, (view.calls id).Answered digest receipt

/-- A call holds the identifier: it is in one of these phases, with these appends and files. -/
structure View.Held (digest : List UInt8 → String) (view : View) (id : Nat) (call : AppendCall)
    (log : List LogEntry) (files : List PersistedAppendReceipt) : Prop where
  log : view.log = log
  files : view.files = files
  entry : view.entry = some (some (.pending (digest call.payload)))
  others : ∀ other ≠ id, (view.calls other).Quiet

/-- What the phase of a call says: a call that is not quiet holds the identifier, or was
answered. -/
def View.Shows (digest : List UInt8 → String) (view : View) (id : Nat) : Phase → Prop
  | .reserved call | .failing call _ => view.Held digest id call [] []
  | .appended call single => view.Held digest id call [⟨call, single⟩] []
  | .completing call ack =>
    ∃ single, ack = ⟨[single]⟩ ∧ view.Held digest id call [⟨call, single⟩] []
  | .persisted call rcpt => ∃ single now, rcpt = call.receipt digest now single ∧
    view.Held digest id call [⟨call, single⟩] [rcpt]
  | .returned call (.ok ack) =>
    ∃ rcpt, view.Recorded digest rcpt ∧ rcpt.payloadDigest = digest call.payload ∧
    rcpt.acknowledgement = ack
  | _ => True

theorem Phase.Quiet.shows {phase : Phase} (h : phase.Quiet) : view.Shows digest id phase := by
  unfold View.Shows
  split <;> first | exact trivial | cases h

section

variable (h : view.Stage digest)
include h

theorem View.Stage.shows (hcall : view.calls id = phase) : view.Shows digest id phase := by
  subst hcall
  have of_holder {holder} (others : ∀ other ≠ holder, (view.calls other).Quiet)
      (hholder : view.Shows digest holder (view.calls holder)) :
      view.Shows digest id (view.calls id) := by
    by_cases heq : id = holder
    · rwa [heq]
    · exact (others id heq).shows
  cases h with
  | unmade log files entry calls => exact (calls id).shows
  | reserved holder call log files entry hholder others =>
    refine of_holder others ?_
    rcases hholder with hholder |
      ⟨error, hholder⟩ <;> rw [hholder] <;> exact ⟨log, files, entry, others⟩
  | made holder call single log files entry hholder others =>
    refine of_holder others ?_
    rcases hholder with hholder | hholder <;> rw [hholder]
    · exact ⟨log, files, entry, others⟩
    · exact ⟨single, rfl, log, files, entry, others⟩
  | written holder call single now log files entry hholder others =>
    refine of_holder others ?_
    rw [hholder]
    exact ⟨single, now, rfl, log, files, entry, others⟩
  | recorded call single now log files entry calls =>
    have answered := calls id
    unfold Phase.Answered at answered
    split at answered
    · next hcall =>
      rw [hcall]
      exact ⟨_, ⟨files, entry, calls⟩, answered.1, answered.2.symm⟩
    · exact answered.shows

/-- Every step leads from stage to stage. -/
theorem View.Stage.next (hnext : View.Next digest view view') : view'.Stage digest := by
  cases hnext with
  | same => exact h
  | arrive hup hidle => exact h.setQuiet (by rw [hidle]; exact trivial) trivial
  | refuse hcall _ _ => exact h.setQuiet (by rw [hcall]; exact trivial) trivial
  | answer hcall hentry hdig =>
    cases h with
    | recorded call' ack now log files entry calls =>
      refine .recorded call' ack now log files entry
        (answered_update (fun other _ => calls other) ?_)
      rcases entry with entry | entry <;> rw [hentry] at entry <;> cases entry
      exact ⟨hdig, rfl⟩
    | _ => simp_all only [reduceCtorEq, Option.some.injEq, or_self]
  | reserve hcall hentry =>
    cases h with
    | unmade log files entry calls =>
      exact .reserved _ _ log files rfl (.inl (update_self ..))
        (quiet_update_holder (fun other _ => calls other) _)
    | _ => simp_all only [reduceCtorEq, Option.some.injEq, or_self]
  | append hcall =>
    obtain ⟨log, files, entry, others⟩ := h.shows hcall
    exact .made _ _ _ (by simp [View.addLog, View.setCall, log]) files entry
      (.inl (update_self ..)) (quiet_update_holder others _)
  | decline hcall =>
    obtain ⟨log, files, entry, others⟩ := h.shows hcall
    exact .reserved _ _ log files entry (.inr ⟨_, update_self ..⟩) (quiet_update_holder others _)
  | await hcall =>
    obtain ⟨log, files, entry, others⟩ := h.shows hcall
    exact .made _ _ _ log files entry (.inr (update_self ..)) (quiet_update_holder others _)
  | persist now hcall =>
    obtain ⟨single, rfl, log, files, entry, others⟩ := h.shows hcall
    exact .written _ _ single now log rfl entry (update_self ..) (quiet_update_holder others _)
  | @complete id _ _ _ hcall hentry =>
    obtain ⟨single, now, rfl, log, files, entry, others⟩ := h.shows hcall
    exact .recorded _ single now log files (.inr rfl)
      (answered_update (fun other hne => (others other hne).answered digest _) ⟨rfl, rfl⟩)
  | @abandon id _ _ _ hcall hentry =>
    obtain ⟨log, files, entry, others⟩ := h.shows hcall
    exact .unmade log files (.inr rfl) (quiet_update_all others trivial)
  | crash happended hcompleting =>
    cases h with
    | unmade log files entry calls => exact .unmade log files (.inl rfl) fun _ => trivial
    | reserved id call log files entry holder others =>
      exact .unmade log files (.inl rfl) fun _ => trivial
    | made id call ack log files entry holder others =>
      rcases holder with holder | holder
      · exact absurd holder (happended id call ack)
      · exact absurd holder (hcompleting id call _)
    | written id call ack now log files entry holder others =>
      exact .recorded call ack now log files (.inl rfl) fun _ => trivial
    | recorded call ack now log files entry calls =>
      exact .recorded call ack now log files (.inl rfl) fun _ => trivial
  | restart hdown =>
    cases h with
    | unmade log files entry calls => exact .unmade log files (.inr (by simp [files])) calls
    | recorded call ack now log files entry calls =>
      exact .recorded call ack now log files (.inr (by simp [files])) calls
    | _ => simp_all only [reduceCtorEq]

end

/-- A recorded receipt stays: nothing is appended any more, and a call with the same payload that
returns does so with its acknowledgement. -/
def View.Keeps (digest : List UInt8 → String) (receipt : PersistedAppendReceipt)
    (view view' : View) : Prop :=
  view'.Recorded digest receipt ∧ view'.log = view.log ∧
    ∀ id call res, view'.calls id = .returned call res → view.calls id = .returned call res ∨
      (receipt.payloadDigest = digest call.payload → res = .ok receipt.acknowledgement)

theorem View.Recorded.next (h : view.Recorded digest rcpt) (hnext : View.Next digest view view') :
    view.Keeps digest rcpt view' := by
  obtain ⟨files, entry, calls⟩ := h
  -- a call that is neither quiet nor answered does not exist
  have hnone : ∀ {id phase}, view.calls id = phase → ¬ phase.Answered digest rcpt → False := by
    intro id phase hphase hanswered
    exact hanswered (hphase ▸ calls id)
  have hset : ∀ {id phase}, phase.Answered digest rcpt →
      (∀ call res, phase = .returned call res →
        (rcpt.payloadDigest = digest call.payload → res = .ok rcpt.acknowledgement)) →
      view.Keeps digest rcpt (view.setCall id phase) := by
    intro id phase hphase hreturned
    refine ⟨⟨files, entry, answered_update (fun other _ => calls other) hphase⟩, rfl,
      fun other call res hcall => ?_⟩
    by_cases heq : other = id
    · subst heq
      simp only [View.setCall, update_self] at hcall
      exact .inr (hreturned call res hcall)
    · simp only [View.setCall, update_of_ne heq] at hcall
      exact .inl hcall
  cases hnext with
  | same => exact ⟨⟨files, entry, calls⟩, rfl, fun _ _ _ hcall => .inl hcall⟩
  | arrive _ _ => exact hset trivial nofun
  | answer hcall hentry hdig =>
    rcases entry with entry | entry <;> rw [hentry] at entry <;> cases entry
    refine hset ⟨hdig, rfl⟩ fun _ _ hphase => ?_
    cases hphase
    exact fun _ => rfl
  | refuse hcall hup hdig =>
    refine hset trivial fun _ _ hphase hsame => ?_
    cases hphase
    exact absurd hsame (hdig rcpt (entry.resolve_left hup))
  | reserve _ hentry => rcases entry with entry | entry <;> rw [hentry] at entry <;> cases entry
  | append hcall | decline hcall | await hcall | persist _ hcall
  | complete hcall _ | abandon hcall _ =>
    exact (hnone hcall id).elim
  | crash _ _ =>
    exact ⟨⟨files, .inl rfl, fun _ => trivial⟩, rfl, nofun⟩
  | restart hdown =>
    exact ⟨⟨files, .inr (by simp [files]), calls⟩, rfl, fun _ _ _ hcall => .inl hcall⟩

end Stage

/-! ## Steps of the store, seen by one identifier -/

/-- Whatever prunes receipts runs while the receipt of the identifier has not expired and the
catalog is not over its capacity. -/
def World.InWindow (requestId : Nat) (world : World) : Event → Prop
  | .reserve id now _ => ∀ call state, world.calls id = .reserving call →
    world.catalog = some state → state.receipts.lookup call.retryId = none →
      state.completedByTime.length < maxNativeAppendReceipts ∧
      ∀ recordedAt, (recordedAt, requestId) ∈ state.completedByTime →
        now - nativeAppendReceiptRetention ≤ recordedAt
  | .retain _ _ => ∀ state, world.catalog = some state →
    state.completedByTime.length ≤ maxNativeAppendReceipts
  | .restart now _ => ∀ receipts, world.directory.recovered = .ok receipts →
    receipts.length ≤ maxNativeAppendReceipts ∧ ∀ receipt ∈ receipts,
      receipt.requestId = requestId →
        now - nativeAppendReceiptRetention ≤ receipt.recordedAtUnixNanos
  | _ => True

/-- Nothing fails between an append of the identifier and its receipt: the engine reports no error
for an append it made durable, waiting for the index and writing the receipt succeed, and there is
no crash in between.  No retention pass removes a receipt of the identifier, and the gate admits its
calls. -/
def World.Unbroken (requestId : Nat) (world : World) : Event → Prop
  | .call _ call refusal => call.retryId = requestId → refusal = none
  | .append id outcome => ∀ call, world.calls id = .reserved call → call.retryId = requestId →
    ∀ acknowledgement error, outcome ≠ .unacknowledged acknowledgement error
  | .await id failure => ∀ call acknowledgement, world.calls id = .appended call acknowledgement →
    call.retryId = requestId → call.waitForIndex = true → failure = none
  | .persist id _ io => ∀ call acknowledgement, world.calls id = .completing call acknowledgement →
    call.retryId = requestId → io.persists requestId = .done
  | .retain cutoff _ => ∀ state, world.catalog = some state →
    ∀ recordedAt, (recordedAt, requestId) ∈ state.completedByTime → cutoff ≤ recordedAt
  | .crash _ => ∀ id call, call.retryId = requestId →
    (∀ acknowledgement, world.calls id ≠ .appended call acknowledgement) ∧
      ∀ acknowledgement, world.calls id ≠ .completing call acknowledgement
  | _ => True

/-- What holds besides the view: the catalog is in order, the file of the identifier is synced, and
the journal of the older version does not know it. -/
structure World.Ok (requestId : Nat) (world : World) : Prop where
  catalog : ∀ state, world.catalog = some state → state.Ok requestId
  synced : ofRequest requestId world.directory.synced = ofRequest requestId world.directory.files
  legacy : ∀ version old, world.directory.legacy = some (version, old) →
    ofRequest requestId old = []
  receipts : ∀ id call receipt, world.calls id = .persisted call receipt →
    receipt.requestId = call.retryId

section Simulation

variable {world world' : World} {id : Nat} {phase : Phase} {directory : ReceiptDirectory}
  {view : View} {call : AppendCall}

/-- A step of a call with another identifier leaves the calls of this one alone. -/
theorem View.setCall_same (h : view.calls id = phase) : view.setCall id phase = view := by
  unfold View.setCall
  rw [← h, update_eq_self]

theorem Phase.restrict_of_eq (h : phase.call = some call) (heq : call.retryId = rid) :
    phase.restrict rid = phase := by
  simp [Phase.restrict, h, heq]

theorem Phase.restrict_of_ne (h : phase.call = some call) (hne : call.retryId ≠ rid) :
    phase.restrict rid = .idle := by
  simp [Phase.restrict, h, hne]

@[simp] theorem Phase.restrict_idle : Phase.idle.restrict rid = .idle := rfl

namespace World

theorem view_setCall (world : World) (id : Nat) (phase : Phase) :
    (world.setCall id phase).view rid = (world.view rid).setCall id (phase.restrict rid) := by
  unfold World.view World.setCall View.setCall
  congr 1
  funext other
  by_cases heq : other = id
  · subst heq
    simp
  · simp [update_of_ne heq]

theorem Ok.of_agrees (h : world.Ok rid) (hagree : Agrees rid world.directory directory) :
    ofRequest rid directory.synced = ofRequest rid directory.files ∧
      ∀ ver old, directory.legacy = some (ver, old) → ofRequest rid old = [] := by
  refine ⟨?_, by rw [hagree.legacy]; exact h.legacy⟩
  rw [hagree.files]
  rcases hagree.synced with hsync | hsync
  · exact hsync.trans h.synced
  · exact hsync

theorem view_calls (h : world.calls id = phase) (hcall : phase.call = some call)
    (heq : call.retryId = rid) : (world.view rid).calls id = phase := by
  subst h
  exact Phase.restrict_of_eq hcall heq

/-- A call that the view shows is one of the identifier's. -/
theorem calls_of_view (hphase : phase.call = some call)
    (h : (world.view rid).calls id = phase) : world.calls id = phase ∧ call.retryId = rid := by
  simp only [World.view, Phase.restrict] at h
  split at h
  · rename_i hany
    rw [h, hphase] at hany
    exact ⟨h, by simpa using hany⟩
  · subst h
    cases hphase

/-- The calls other than one keep their receipts. -/
theorem Ok.setCall (h : world.Ok rid)
    (hphase : ∀ call rcpt, phase = .persisted call rcpt → rcpt.requestId = call.retryId) :
    (world.setCall id phase).Ok rid := by
  refine ⟨h.catalog, h.synced, h.legacy, fun other call rcpt hcall => ?_⟩
  by_cases heq : other = id
  · subst heq
    simp only [World.setCall, update_self] at hcall
    exact hphase call rcpt hcall
  · simp only [World.setCall, update_of_ne heq] at hcall
    exact h.receipts other call rcpt hcall

/-- The catalog and the directory change, the identifier is spared. -/
theorem Ok.of_spared (h : world.Ok rid) (hok : state.Ok rid)
    (hagree : Agrees rid world.directory directory) :
    Ok rid { world with catalog := some state, directory } := by
  obtain ⟨hsync, hlegacy⟩ := h.of_agrees hagree
  exact ⟨fun _ heq => Option.some.inj heq ▸ hok, hsync, hlegacy, h.receipts⟩

theorem Ok.of_catalog (h : world.Ok rid) (hok : state.Ok rid) :
    Ok rid { world with catalog := some state } :=
  h.of_spared hok (.refl _)

theorem view_of_spared (hcat : world.catalog = some state)
    (hget : state'.receipts.lookup rid = state.receipts.lookup rid)
    (hagree : Agrees rid world.directory directory) :
    World.view rid { world with catalog := some state', directory } = world.view rid := by
  simp only [World.view, hcat, Option.map_some, hget, hagree.files]

/-- The store takes a step that the identifier sees as one of its own, and stays in order. -/
def Follows (digest : List UInt8 → String) (requestId : Nat) (world world' : World) : Prop :=
  View.Next digest (world.view requestId) (world'.view requestId) ∧ world'.Ok requestId

/-- A call with the identifier moves on. -/
theorem Ok.follows_self (h : world'.Ok rid) (hview : world'.view rid = view)
    (heq : call.retryId = rid) (hphase : phase.call = some call)
    (hnext : View.Next digest (world.view rid) (view.setCall id phase))
    (hrcpt : ∀ call rcpt, phase = .persisted call rcpt → rcpt.requestId = call.retryId) :
    Follows digest rid world (world'.setCall id phase) := by
  refine ⟨?_, h.setCall hrcpt⟩
  rw [view_setCall, hview, Phase.restrict_of_eq hphase heq]
  exact hnext

/-- A call with another identifier moves on, and nothing else that concerns this one changes. -/
theorem Ok.follows_other (h : world'.Ok rid) (hview : world'.view rid = world.view rid)
    (hcalls : world'.calls id = old) (hcall : old.call = some call) (hne : call.retryId ≠ rid)
    (hphase : phase.call = some call)
    (hrcpt : ∀ call rcpt, phase = .persisted call rcpt → rcpt.requestId = call.retryId) :
    Follows digest rid world (world'.setCall id phase) := by
  refine ⟨.of_eq ?_, h.setCall hrcpt⟩
  rw [view_setCall, Phase.restrict_of_ne hphase hne, ← hview]
  exact View.setCall_same (Phase.restrict_of_ne (hcalls ▸ hcall) hne)

theorem Ok.arrive (h : world.Ok rid) {refusal : Option LokiApiError}
    (hcat : world.catalog = some state) (hidle : world.calls id = .idle)
    (hadmitted : call.retryId = rid → refusal = none) :
    Follows digest rid world (world.setCall id (refusal.elim (.reserving call) fun error =>
      .returned call (.error error))) := by
  refine ⟨?_, h.setCall fun _ _ hphase => by cases refusal <;> cases hphase⟩
  have hview : (world.view rid).calls id = .idle := by simp [World.view, hidle]
  by_cases heq : call.retryId = rid
  · rw [hadmitted heq, Option.elim_none, view_setCall, Phase.restrict_of_eq rfl heq]
    exact .arrive (by simp [World.view, hcat]) hview
  · have hcall : (refusal.elim (.reserving call) fun error =>
        Phase.returned call (.error error)).call = some call := by cases refusal <;> rfl
    rw [view_setCall, Phase.restrict_of_ne hcall heq, View.setCall_same hview]
    exact .same _

theorem Ok.reserve (h : world.Ok rid) (hcat : world.catalog = some state)
    (hcall : world.calls id = .reserving call) (hroom : state.RoomFor rid now call.retryId) :
    Follows digest rid world (world.reserve digest id now io call state) := by
  unfold World.reserve
  cases hreserve : state.reserve io now call.retryId (digest call.payload) world.directory with
  | mk res rest =>
    obtain ⟨state', directory⟩ := rest
    simp only
    by_cases heq : call.retryId = rid
    · have hentry : (world.view rid).entry = some (state.receipts.lookup rid) := by
        simp [World.view, hcat]
      have hreserving := view_calls hcall rfl heq
      rw [heq] at hreserve hroom
      obtain ⟨hok, hagree, hcases⟩ := (h.catalog state hcat).reserve_self hroom hreserve
      have hworld := h.of_spared hok hagree
      rcases hcases with ⟨rcpt, hget, hdig, rfl, hsame⟩ | ⟨rfl, hnone, hpend⟩ |
        ⟨rfl, hsame⟩ | ⟨error, rfl, hsame, hdig⟩
      · exact hworld.follows_self (view_of_spared hcat hsame hagree) heq rfl
          (.answer hreserving (hentry.trans (congrArg some hget)) hdig) nofun
      · have hview : World.view rid { world with catalog := some state', directory } =
            { world.view rid with entry := some (some (.pending (digest call.payload))) } := by
          simp only [World.view, Option.map_some, hpend, hagree.files]
        exact hworld.follows_self hview heq rfl
          (.reserve hreserving (hentry.trans (congrArg some hnone))) nofun
      · exact ⟨.of_eq (view_of_spared hcat hsame hagree), hworld⟩
      · refine hworld.follows_self (view_of_spared hcat hsame hagree) heq rfl
          (.refuse hreserving (by simp [hentry]) fun rcpt hrcpt => hdig rcpt ?_) nofun
        rw [hentry] at hrcpt
        exact Option.some.inj hrcpt
    · obtain ⟨hok, hsame, hagree⟩ :=
        (h.catalog state hcat).reserve_other (Ne.symm heq) hroom hreserve
      have hview := view_of_spared hcat hsame hagree
      have hworld := h.of_spared hok hagree
      split
      · exact hworld.follows_other hview hcall rfl heq rfl nofun
      · exact hworld.follows_other hview hcall rfl heq rfl nofun
      · exact ⟨.of_eq hview, hworld⟩
      · exact hworld.follows_other hview hcall rfl heq rfl nofun

theorem view_addLog (world : World) (entry) : (world.addLog entry).view rid =
      if entry.call.retryId = rid then (world.view rid).addLog entry else world.view rid := by
  unfold World.view World.addLog View.addLog
  split <;> simp [*]

section

variable (h : world.Ok rid)
include h

theorem Ok.append {out : EngineAppend} (hcall : world.calls id = .reserved call)
    (hsound : call.retryId = rid → ∀ ack error, out ≠ .unacknowledged ack error) :
    Follows digest rid world (world.append id call out) := by
  have hok : ∀ entry, (world.addLog entry).Ok rid := fun entry =>
    ⟨h.catalog, h.synced, h.legacy, h.receipts⟩
  by_cases heq : call.retryId = rid
  · have hreserved := view_calls hcall rfl heq
    cases out with
    | acknowledged ack =>
      exact (hok _).follows_self ((world.view_addLog _).trans (if_pos heq)) heq
        rfl (.append hreserved) nofun
    | refused error =>
      exact h.follows_self rfl heq rfl (.decline hreserved) nofun
    | unacknowledged ack error => exact absurd rfl (hsound heq ack error)
  · have hlog : ∀ ack, (world.addLog ⟨call, ack⟩).view rid =
        world.view rid := fun ack => by rw [view_addLog, if_neg heq]
    cases out with
    | acknowledged ack =>
      exact (hok _).follows_other (hlog ack) hcall rfl heq rfl nofun
    | refused error =>
      exact h.follows_other rfl hcall rfl heq rfl nofun
    | unacknowledged ack error =>
      exact (hok _).follows_other (hlog ack) hcall rfl heq rfl nofun

theorem Ok.await {ack : NativePartitionAck} {failure : Option LokiApiError}
    (hcall : world.calls id = .appended call ack)
    (hsound : call.retryId = rid → call.waitForIndex = true → failure = none) :
    Follows digest rid world (world.await id call ack failure) := by
  unfold World.await
  by_cases heq : call.retryId = rid
  · have happended := view_calls hcall rfl heq
    split
    · rename_i error hwait
      exact absurd (hsound heq hwait) (by simp)
    · exact h.follows_self rfl heq rfl (.await happended) nofun
  · split
    · exact h.follows_other rfl hcall rfl heq rfl nofun
    · exact h.follows_other rfl hcall rfl heq rfl nofun

theorem Ok.persist {ack : NativeTelemetryAppendAck} (hcall : world.calls id = .completing call ack)
    (hsound : call.retryId = rid → io.persists rid = .done) :
    Follows digest rid world (world.persist digest id now io call ack) := by
  unfold World.persist
  simp only
  obtain ⟨rcpt, hrcpt⟩ : ∃ rcpt : PersistedAppendReceipt,
    rcpt = ⟨call.retryId, digest call.payload, now, ack⟩ := ⟨_, rfl⟩
  have hid : rcpt.requestId = call.retryId := by rw [hrcpt]
  rw [← hrcpt]
  cases hpersist : world.directory.persistReceipt io rcpt with
  | mk res directory =>
    by_cases heq : call.retryId = rid
    · have hcompleting := view_calls hcall rfl heq
      have hdone : io.persists rcpt.requestId = .done := by
        rw [hid, heq]
        exact hsound heq
      obtain ⟨files, hwrote, hfiles⟩ := world.directory.persistReceipt_self hdone
      rw [hpersist] at hwrote
      cases hwrote
      rw [hid, heq] at hfiles
      have hok :
          Ok rid { world with directory := { world.directory with files, synced := files } } :=
        ⟨h.catalog, rfl, h.legacy, h.receipts⟩
      have hview :
          World.view rid { world with
            directory := { world.directory with files, synced := files } } =
          { world.view rid with files := [rcpt] } := by
        simp only [World.view, hfiles]
      exact hok.follows_self hview heq rfl (hrcpt ▸ .persist now hcompleting)
        fun _ _ hphase => by cases hphase; exact hid
    · have hagree := ReceiptDirectory.persistReceipt_agrees io (hid ▸ heq) world.directory
      rw [hpersist] at hagree
      obtain ⟨hsync, hlegacy⟩ := h.of_agrees hagree
      have hok : Ok rid { world with directory } :=
        ⟨h.catalog, hsync, hlegacy, h.receipts⟩
      have hview : World.view rid { world with directory } = world.view rid := by
        simp only [World.view, hagree.files]
      cases res with
      | ok =>
        exact hok.follows_other hview hcall rfl heq rfl
          fun _ _ hphase => by cases hphase; exact hid
      | error error =>
        exact hok.follows_other hview hcall rfl heq rfl nofun

section

variable (hstage : (world.view rid).Stage digest) (hcat : world.catalog = some state)
include hstage hcat

theorem Ok.complete (hcall : world.calls id = .persisted call rcpt) :
    Follows digest rid world (world.complete id call rcpt state) := by
  have hid := h.receipts id call rcpt hcall
  unfold World.complete
  cases hcomplete : state.completeLocked rcpt with
  | mk res state' =>
    by_cases heq : call.retryId = rid
    · have hpersisted := view_calls hcall rfl heq
      -- the call holds the identifier, so there is a reservation to complete
      obtain ⟨_, _, _, _, _, hentry, _⟩ := hstage.shows hpersisted
      have hpend : state.receipts.lookup rid = some (.pending (digest call.payload)) := by
        simpa [World.view, hcat] using hentry
      obtain ⟨hresult, hok, hget⟩ :=
        (h.catalog state hcat).completeLocked_self (hid.trans heq) hpend
      rw [hcomplete] at hresult hok hget
      obtain rfl : res = .ok () := hresult
      have hworld := h.of_catalog hok
      have hview : World.view rid { world with catalog := some state' } =
          { world.view rid with entry := some (some (.complete rcpt)) } := by
        simp only [World.view, Option.map_some, hget]
      exact hworld.follows_self hview heq rfl (.complete hpersisted hentry) nofun
    · obtain ⟨hok, hget⟩ := (h.catalog state hcat).completeLocked_other rcpt
        (by rw [hid]; exact Ne.symm heq)
      rw [hcomplete] at hok hget
      have hworld := h.of_catalog hok
      have hview := view_of_spared hcat hget (.refl world.directory)
      cases res with
      | ok =>
        exact hworld.follows_other hview hcall rfl heq rfl nofun
      | error error =>
        exact hworld.follows_other hview hcall rfl heq rfl nofun

theorem Ok.abandon {error : LokiApiError} (hcall : world.calls id = .failing call error) :
    Follows digest rid world
      (World.setCall { world with catalog := some (state.abandon call.retryId) } id
        (.returned call (.error error))) := by
  by_cases heq : call.retryId = rid
  · have hfailing := view_calls hcall rfl heq
    obtain ⟨_, _, hentry, _⟩ := hstage.shows hfailing
    have hpend : state.receipts.lookup rid = some (.pending (digest call.payload)) := by
      simpa [World.view, hcat] using hentry
    obtain ⟨hok, hget⟩ := (h.catalog state hcat).abandon_self hpend
    rw [heq]
    have hworld := h.of_catalog hok
    have hview : World.view rid { world with catalog := some (state.abandon rid) } =
        { world.view rid with entry := some none } := by
      simp only [World.view, Option.map_some, hget]
    exact hworld.follows_self hview heq rfl (.abandon hfailing hentry) nofun
  · obtain ⟨hok, hget⟩ := (h.catalog state hcat).abandon_other (Ne.symm heq)
    have hworld := h.of_catalog hok
    exact hworld.follows_other (view_of_spared hcat hget (.refl world.directory)) hcall
      rfl heq rfl nofun

end

theorem Ok.crash (kept) (hsound : ∀ id call, call.retryId = rid →
      (∀ ack, world.calls id ≠ .appended call ack) ∧ ∀ ack, world.calls id ≠ .completing call ack) :
    Follows digest rid world { world with
      catalog := none, directory := world.directory.crash kept, calls := fun _ => .idle } := by
  have hfiles := ReceiptDirectory.crash_ofRequest kept h.synced
  constructor
  · have hview : World.view rid { world with
        catalog := none, directory := world.directory.crash kept, calls := fun _ => .idle } =
          { world.view rid with entry := none, calls := fun _ => .idle } := by
      simp only [World.view, Option.map_none, hfiles, Phase.restrict_idle]
    rw [hview]
    refine .crash (fun id call ack hcall => ?_) fun id call ack hcall => ?_
    · obtain ⟨hcall, heq⟩ := calls_of_view rfl hcall
      exact (hsound id call heq).1 ack hcall
    · obtain ⟨hcall, heq⟩ := calls_of_view rfl hcall
      exact (hsound id call heq).2 ack hcall
  · exact ⟨nofun, rfl, h.legacy, nofun⟩

theorem Ok.restart (hcat : world.catalog = none) (hwindow : world.InWindow rid (.restart now io))
    (hstep : World.step digest world (.restart now io) = some world') :
    Follows digest rid world world' := by
  simp only [World.step, hcat] at hstep
  cases hopen : world.directory.openCatalog io now with
  | mk res directory =>
    obtain ⟨hagree, hstate⟩ := openCatalog_finds hopen h.legacy hwindow
    obtain ⟨hsync, hlegacy⟩ := h.of_agrees hagree
    rw [hopen] at hstep
    cases res with
    | error error =>
      cases hstep
      refine ⟨.of_eq ?_, nofun, hsync, hlegacy, h.receipts⟩
      simp only [World.view, hcat, hagree.files]
    | ok state =>
      cases hstep
      obtain ⟨hok, hget⟩ := hstate state rfl
      refine ⟨?_, h.of_spared hok hagree⟩
      have hview : World.view rid { world with catalog := some state, directory } =
          { world.view rid with
            entry := some ((world.view rid).files.head?.map .complete) } := by
        simp only [World.view, Option.map_some, hget, hagree.files]
      rw [hview]
      exact .restart (by simp [World.view, hcat])

theorem Ok.retain (hcat : world.catalog = some state)
    (hlen : state.completedByTime.length ≤ maxNativeAppendReceipts)
    (htimes : ∀ when, (when, rid) ∈ state.completedByTime → cutoff ≤ when)
    (hstep : World.step digest world (.retain cutoff io) = some world') :
    Follows digest rid world world' := by
  simp only [World.step, hcat] at hstep
  cases hprune : state.pruneLocked io cutoff maxNativeAppendReceipts world.directory with
  | mk res rest =>
    obtain ⟨hok, hget, hagree⟩ := (h.catalog state hcat).prune hlen htimes hprune
    rw [hprune] at hstep
    cases hstep
    exact ⟨.of_eq (view_of_spared hcat hget hagree), h.of_spared hok hagree⟩

end

/-- Every step of the store that breaks nothing is one the identifier sees as its own. -/
theorem Ok.step {ev : Event} (h : world.Ok rid) (hstage : (world.view rid).Stage digest)
    (hwindow : world.InWindow rid ev) (hunbroken : world.Unbroken rid ev)
    (hstep : World.step digest world ev = some world') : Follows digest rid world world' := by
  cases hcat : world.catalog with
  | none =>
    cases ev with
    | crash kept =>
      cases hstep
      exact h.crash kept hunbroken
    | restart now io => exact h.restart hcat hwindow hstep
    | _ =>
      simp only [World.step, hcat] at hstep
      cases hstep
  | some state =>
    cases ev
    case retain cutoff io => exact h.retain hcat (hwindow state hcat) (hunbroken state hcat) hstep
    case crash kept =>
      cases hstep
      exact h.crash kept hunbroken
    -- the other events are those of a call that is in the phase for them
    all_goals simp only [World.step, hcat] at hstep
    all_goals try split at hstep
    all_goals cases hstep
    · next hidle => exact h.arrive hcat hidle hunbroken
    · next call hcall => exact h.reserve hcat hcall fun hnone => hwindow call state hcall hcat hnone
    · next call hcall => exact h.append hcall (hunbroken call hcall)
    · next call ack hcall => exact h.await hcall (hunbroken call ack hcall)
    · next call ack hcall => exact h.persist hcall (hunbroken call ack hcall)
    · next hcall => exact h.complete hstage hcat hcall
    · next hcall => exact h.abandon hstage hcat hcall

end World

end Simulation

/-! ## Runs -/

section Runs

variable {rid : Nat} {digest : List UInt8 → String} {world : World} {directory : ReceiptDirectory}

/-- The durable appends of a payload under an identifier. -/
def World.appends (requestId : Nat) (payload : List UInt8) (world : World) : List LogEntry :=
  world.log.filter fun entry => entry.call.retryId = requestId ∧ entry.call.payload = payload

/-- The directory knows nothing of an identifier. -/
structure ReceiptDirectory.Lacks (requestId : Nat) (directory : ReceiptDirectory) : Prop where
  files : ofRequest requestId directory.files = []
  synced : ofRequest requestId directory.synced = []
  legacy : ∀ version old, directory.legacy = some (version, old) → ofRequest requestId old = []

/-- The steps within the lifetime and capacity of the receipts, with no failure in between. -/
def World.Sound (requestId : Nat) (world : World) (event : Event) : Prop :=
  world.InWindow requestId event ∧ world.Unbroken requestId event

theorem World.appends_eq (rid : Nat) (load : List UInt8) (world : World) :
    world.appends rid load = (world.view rid).log.filter (·.call.payload = load) := by
  simp only [World.appends, World.view, List.filter_filter, Bool.decide_and, Bool.and_comm]

/-- A log has at most one append at every stage. -/
theorem View.Stage.length_log {view : View} (h : view.Stage digest) : view.log.length ≤ 1 := by
  cases h with
  | unmade log => simp [log]
  | reserved _ _ log => simp [log]
  | made _ _ _ log => simp [log]
  | written _ _ _ _ log => simp [log]
  | recorded _ _ _ log => simp [log]

theorem World.initial_ok (h : directory.Lacks rid) :
    (World.initial directory).Ok rid ∧ ((World.initial directory).view rid).Stage digest := by
  constructor
  · exact ⟨nofun, h.synced.trans h.files.symm, h.legacy, nofun⟩
  · exact .unmade rfl h.files (.inl rfl) fun _ => trivial

/-- The store is in order, and the identifier at one of its stages, in every state of a run. -/
theorem World.reaches_stage (h : directory.Lacks rid)
    (hreach : Run.ReachesWhile (World.step digest) (World.Sound rid)
      (World.initial directory) world) : world.Ok rid ∧ (world.view rid).Stage digest := by
  refine hreach.invariant (I := fun w => w.Ok rid ∧ (w.view rid).Stage digest)
    (fun w ev w' hw hsound hstep => ?_) (World.initial_ok h)
  obtain ⟨hnext, hok⟩ := hw.1.step hw.2 hsound.1 hsound.2 hstep
  exact ⟨hok, hw.2.next hnext⟩

variable {id : Nat}

/-- From the state in which the receipt is recorded on, nothing is appended under the identifier,
and whatever returns is the acknowledgement of the receipt, unless the payload is another one. -/
theorem World.Ok.reaches_recorded (h : world.Ok rid) (hstage : (world.view rid).Stage digest)
    (hrec : (world.view rid).Recorded digest rcpt)
    (hreach : Run.ReachesWhile (World.step digest) (World.Sound rid) world world') :
    (world.view rid).Keeps digest rcpt (world'.view rid) := by
  refine (hreach.invariant (I := fun w => (w.Ok rid ∧ (w.view rid).Stage digest) ∧
      (world.view rid).Keeps digest rcpt (w.view rid))
    (fun w ev w' hw hsound hstep => ?_) ⟨⟨h, hstage⟩, hrec, rfl, fun _ _ _ hcall => .inl hcall⟩).2
  obtain ⟨⟨hok, hstage⟩, hrec, hlog, hreturned⟩ := hw
  obtain ⟨hnext, hok'⟩ := hok.step hstage hsound.1 hsound.2 hstep
  obtain ⟨hrecorded', hlog', hreturned'⟩ := hrec.next hnext
  refine ⟨⟨hok', hstage.next hnext⟩, hrecorded', hlog'.trans hlog, ?_⟩
  intro id call res hcall
  rcases hreturned' id call res hcall with hcall | hcall
  · exact hreturned id call res hcall
  · exact .inr hcall

/-- A call that looks for a recorded receipt of its payload finds it. -/
theorem World.step_reserve_recorded (hcat : world.catalog = some state)
    (hrec : (world.view rid).Recorded digest rcpt)
    (hcall : world.calls id = .reserving call) (heq : call.retryId = rid)
    (hdig : rcpt.payloadDigest = digest call.payload) (now : Nat) (io : ReceiptIo) :
    World.step digest world (.reserve id now io) =
      some (world.setCall id (.returned call (.ok rcpt.acknowledgement))) := by
  have hget : state.receipts.lookup call.retryId = some (.complete rcpt) := by
    rw [heq]
    simpa [World.view, hcat] using hrec.entry
  have hreserve : state.reserve io now call.retryId (digest call.payload) world.directory =
      (.ok (.existing rcpt.acknowledgement), state, world.directory) := by
    simp [AppendReceiptState.reserve, hget, hdig]
  simp only [World.step, hcat, hcall, World.reserve, hreserve]
  rw [← hcat]

/-- A retry identifier that starts unknown appends its payload at most once.  When a call was
acknowledged, then from that state on nothing is appended for the payload, every call that returns
has the same acknowledgement, and every call that looks for its receipt returns at once. -/
theorem retry_appends_once (load : List UInt8) (h : directory.Lacks rid)
    (hreach : Run.ReachesWhile (World.step digest) (World.Sound rid)
      (World.initial directory) world) :
    (world.appends rid load).length ≤ 1 ∧ ∀ id call ack, world.calls id = .returned call (.ok ack) →
        call.retryId = rid → call.payload = load →
        ∀ world', Run.ReachesWhile (World.step digest) (World.Sound rid) world world' →
          world'.appends rid load = world.appends rid load ∧
          ∀ id' call', call'.retryId = rid → call'.payload = load →
            (∀ res, world'.calls id' = .returned call' res →
              world.calls id' = .returned call' res ∨ res = .ok ack) ∧
            ∀ state now io, world'.catalog = some state → world'.calls id' = .reserving call' →
              World.step digest world' (.reserve id' now io) =
                some (world'.setCall id' (.returned call' (.ok ack))) := by
  obtain ⟨hok, hstage⟩ := World.reaches_stage h hreach
  constructor
  · rw [World.appends_eq]
    exact (List.length_filter_le _ _).trans hstage.length_log
  intro id call ack hcall heq hpayload world' hreach'
  obtain ⟨rcpt, hrec, hdig, rfl⟩ := hstage.shows (World.view_calls hcall rfl heq)
  obtain ⟨hrecorded', hlog, hreturned⟩ := hok.reaches_recorded hstage hrec hreach'
  rw [hpayload] at hdig
  refine ⟨by rw [World.appends_eq, World.appends_eq,
    hlog], fun id' call' heq' hpayload' => ⟨?_, ?_⟩⟩
  · intro res hcall'
    rcases hreturned id' call' res (World.view_calls hcall' rfl heq') with hold | hnew
    · exact .inl (World.calls_of_view rfl hold).1
    · exact .inr (hnew (by rw [hpayload', hdig]))
  · intro state now io hcat hcall'
    exact World.step_reserve_recorded hcat hrecorded' hcall' heq' (by rw [hpayload', hdig]) now io

/-- A directory without receipts. -/
def sampleDirectory : ReceiptDirectory := ⟨[], [], none⟩

def sampleIo : ReceiptIo := ⟨fun _ => true, fun _ => .done⟩

/-- A call that waits for the index. -/
def sampleCall : AppendCall := ⟨7, [1, 2, 3], true⟩

def sampleAck : NativePartitionAck := ⟨1, 0, 0, 0⟩

def sampleDigest : List UInt8 → String := fun _ => "00"

theorem sampleDirectory_lacks (rid) : sampleDirectory.Lacks rid :=
  ⟨rfl, rfl, nofun⟩

/-- The window is open at the first steps of a run on the empty directory. -/
theorem sample_inWindow_restart (calls) :
    World.InWindow 7 ⟨none, sampleDirectory, [], calls⟩ (.restart 0 sampleIo) := by
  intro rcpts hreceipts
  cases hreceipts
  exact ⟨by decide, nofun⟩

theorem sample_inWindow_reserve (h : world.catalog = some state)
    (hempty : state.completedByTime = []) : world.InWindow 7 (.reserve id 0 sampleIo) := by
  intro call state' _ hcat _
  cases h.symm.trans hcat
  rw [hempty]
  exact ⟨by decide, nofun⟩

/-- The call holds its reservation and has appended. -/
def sampleAppended : World :=
  let world : World := ⟨some ⟨AList.insert 7 (.pending "00") ∅, []⟩, sampleDirectory,
    [⟨sampleCall, sampleAck⟩], fun _ => .idle⟩
  ((world.setCall 0 (.reserving sampleCall)).setCall 0 (.reserved sampleCall)).setCall 0
    (.appended sampleCall sampleAck)

/-- A call arrives on the empty directory, reserves the identifier, and appends; nothing fails. -/
theorem sample_reaches_appended :
    Run.ReachesWhile (World.step sampleDigest) (World.Sound 7) (World.initial sampleDirectory)
      sampleAppended := by
  have hrestart : World.Sound 7 (World.initial sampleDirectory) (.restart 0 sampleIo) :=
    ⟨sample_inWindow_restart _, trivial⟩
  exact .tail (.tail (.tail (.tail (.refl _) hrestart rfl)
    (show World.Sound 7 _ (.call 0 sampleCall none) from ⟨trivial, fun _ => rfl⟩) rfl)
    (show World.Sound 7 _ (.reserve 0 0 sampleIo) from ⟨sample_inWindow_reserve rfl rfl, trivial⟩)
      rfl)
    (show World.Sound 7 _ (.append 0 (.acknowledged sampleAck)) from
      ⟨trivial, fun _ _ _ _ _ => by nofun⟩) rfl

/-- The run goes on to the acknowledgement. -/
theorem sample_reaches_returned :
      ∃ world, Run.ReachesWhile (World.step sampleDigest) (World.Sound 7)
      (World.initial sampleDirectory) world ∧ world.log = [⟨sampleCall, sampleAck⟩] ∧
      world.calls 0 = .returned sampleCall (.ok ⟨[sampleAck]⟩) := by
  refine ⟨_, .tail (.tail (.tail sample_reaches_appended
      (show World.Sound 7 _ (.await 0 none) from ⟨trivial, fun _ _ _ _ _ => rfl⟩) rfl)
      (show World.Sound 7 _ (.persist 0 0 sampleIo) from ⟨trivial, fun _ _ _ _ => rfl⟩) rfl)
      (show World.Sound 7 _ (.complete 0) from ⟨trivial, trivial⟩) rfl, rfl, rfl⟩

/-- A call was acknowledged, and nothing is appended for its payload any more. -/
theorem retry_appends_once_sample : ∃ world, (world.appends 7 [1, 2, 3]).length = 1 ∧
      ∀ world', Run.ReachesWhile (World.step sampleDigest) (World.Sound 7) world world' →
        world'.appends 7 [1, 2, 3] = world.appends 7 [1, 2, 3] := by
  obtain ⟨world, hreach, hlog, hcall⟩ := sample_reaches_returned
  have honce := retry_appends_once [1, 2, 3] (sampleDirectory_lacks 7) hreach
  refine ⟨world, ?_, fun world' hreach' =>
    (honce.2 0 sampleCall _ hcall rfl rfl world' hreach').1⟩
  rw [World.appends, hlog]
  rfl

/-- Within the lifetime and the capacity of the receipts a payload can still be appended twice: the
call that appended it waits for the index in vain and abandons its reservation, and the next call
finds nothing. -/
theorem retry_appends_twice :
      ¬ ∀ (digest : List UInt8 → String) (directory : ReceiptDirectory) (rid : Nat)
      (load : List UInt8) (world : World), directory.Lacks rid →
      Run.ReachesWhile (World.step digest) (World.InWindow rid) (World.initial directory) world →
      (world.appends rid load).length ≤ 1 := by
  intro hall
  have hreach := sample_reaches_appended.mono fun _ _ h => h.1
  refine absurd (hall sampleDigest sampleDirectory 7 [1, 2, 3] _ (sampleDirectory_lacks 7)
    (.tail (.tail (.tail (.tail (.tail hreach
      (show World.InWindow 7 _ (.await 0 (some (.unavailable "index wait timed out"))) from trivial)
      rfl)
      (show World.InWindow 7 _ (.abandon 0) from trivial) rfl)
      (show World.InWindow 7 _ (.call 1 sampleCall none) from trivial) rfl)
      (show World.InWindow 7 _ (.reserve 1 0 sampleIo) from sample_inWindow_reserve rfl rfl) rfl)
      (show World.InWindow 7 _ (.append 1 (.acknowledged ⟨1, 0, 1, 1⟩)) from trivial) rfl)) ?_
  decide

end Runs

end ShardTelemetry.Store
