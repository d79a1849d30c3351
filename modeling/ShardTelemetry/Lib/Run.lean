import Mathlib.Algebra.Order.Ring.Nat

/-!
# Runs of an event-driven system

A system is a partial step function `step : W → Ev → Option W`: an event that is not enabled in a
state has no successor.  All nondeterminism sits in the events, so a run is a list of events and a
concrete run evaluates.

`Reaches` is reachability by a run, with the induction of safety theorems (`Reaches.invariant`).
`guarded` restricts a system to the steps that meet a condition.
-/

namespace Run

variable {W Ev : Type} (step : W → Ev → Option W)

/-- The state after a list of events, if each of them is enabled in its turn. -/
def run : W → List Ev → Option W
  | w, [] => some w
  | w, ev :: evs => (step w ev).bind (run · evs)

/-- Some run leads from the first state to the second. -/
def Reaches (w w' : W) : Prop := ∃ evs, run step w evs = some w'

/-- The system that takes only the steps that meet a condition. -/
def guarded (ok : W → Ev → Prop) [∀ w ev, Decidable (ok w ev)] (w : W) (ev : Ev) : Option W :=
  if ok w ev then step w ev else none

variable {step} {w w' w'' : W}

theorem run_append (evs evs' : List Ev) :
    run step w (evs ++ evs') = (run step w evs).bind (run step · evs') := by
  induction evs generalizing w with
  | nil => rfl
  | cons ev evs ih =>
    simp only [List.cons_append, run, Option.bind_assoc]
    exact congrArg _ (funext fun _ => ih)

variable {ev : Ev} {I : W → Prop} {ok : W → Ev → Prop}

/-- What holds at the start and is preserved by every step holds in every state reached. -/
theorem Reaches.invariant (hstep : ∀ w ev w', I w → step w ev = some w' → I w')
    (h : Reaches step w w') (hw : I w) : I w' := by
  obtain ⟨evs, h⟩ := h
  induction evs generalizing w with
  | nil => exact Option.some.inj h ▸ hw
  | cons ev evs ih =>
    obtain ⟨w₁, h₁, h⟩ := Option.bind_eq_some_iff.mp h
    exact ih (hstep w ev w₁ hw h₁) h

/-- Some run leads from the first state to the second, and each of its steps meets a condition on
the state before the step. -/
inductive ReachesWhile (step : W → Ev → Option W) (ok : W → Ev → Prop) : W → W → Prop
  /-- The empty run. -/
  | refl (w : W) : ReachesWhile step ok w w
  /-- One more step. -/
  | tail {w w' w'' : W} {ev : Ev} : ReachesWhile step ok w w' → ok w' ev → step w' ev = some w'' →
      ReachesWhile step ok w w''

/-- What holds at the start and is preserved by every step that meets the condition holds in every
state reached. -/
theorem ReachesWhile.invariant (hstep : ∀ w ev w', I w → ok w ev → step w ev = some w' → I w')
    (h : ReachesWhile step ok w w') (hw : I w) : I w' := by
  induction h with
  | refl => exact hw
  | tail _ hok hnext ih => exact hstep _ _ _ ih hok hnext

/-- A run whose steps meet a condition meets every weaker one. -/
theorem ReachesWhile.mono {ok' : W → Ev → Prop} (hok : ∀ w ev, ok w ev → ok' w ev)
    (h : ReachesWhile step ok w w') : ReachesWhile step ok' w w' := by
  induction h with
  | refl => exact .refl _
  | tail _ hmet hnext ih => exact .tail ih (hok _ _ hmet) hnext

theorem guarded_eq_some [∀ w ev, Decidable (ok w ev)] :
    guarded step ok w ev = some w' ↔ ok w ev ∧ step w ev = some w' := by
  unfold guarded
  split <;> simp_all

end Run
