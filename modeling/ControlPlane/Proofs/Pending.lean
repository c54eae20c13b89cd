/-
What the holder of a pending call is told. `Course` is the call at any moment:
its task may end at any time, and its holder may wait or not. Whatever the
course, a result is that of an outcome the task has come to.
-/
import ControlPlane.Pending

namespace ControlPlane.PendingCall

variable {α : Type} {operation : String} {comes : TaskOutcome α → Prop} {call : PendingCall α}

/-- A pending call at some moment, when its task ends in none but the ways of
`comes`. A wait that is given up leaves the call as it was. -/
inductive Course (operation : String) (comes : TaskOutcome α → Prop) : PendingCall α → Prop
  | submitted : Course operation comes (submit operation)
  | completed {call outcome} : Course operation comes call → comes outcome →
      Course operation comes (call.complete outcome)
  | waited {call call'} : Course operation comes call → call.wait? = some call' →
      Course operation comes call'

/-- What a call knows of its task's end is true. -/
structure Sound (operation : String) (comes : TaskOutcome α → Prop) (call : PendingCall α) :
    Prop where
  name : call.operation = operation
  joined : ∀ outcome, call.state = .joined (some outcome) → comes outcome
  settled : ∀ result, call.state = .settled result →
    ∃ outcome, comes outcome ∧ result = outcome.result operation

theorem Sound.complete (h : Sound operation comes call) {outcome : TaskOutcome α}
    (hcomes : comes outcome) : Sound operation comes (call.complete outcome) := by
  unfold PendingCall.complete
  split
  · refine ⟨h.name, fun outcome' hstate => ?_, nofun⟩
    cases hstate
    exact hcomes
  · exact h

theorem Sound.wait (h : Sound operation comes call) {call' : PendingCall α}
    (hwait : call.wait? = some call') : Sound operation comes call' := by
  unfold wait? at hwait
  split at hwait
  · cases hwait
  · next outcome hstate =>
    cases hwait
    refine ⟨h.name, nofun, fun result hsettled => ?_⟩
    cases hsettled
    exact ⟨outcome, h.joined outcome hstate, by rw [h.name]⟩
  · cases hwait
    exact h

theorem Course.sound (h : Course operation comes call) : Sound operation comes call := by
  induction h with
  | submitted => exact ⟨rfl, nofun, nofun⟩
  | completed _ hcomes ih => exact ih.complete hcomes
  | waited _ hwait ih => exact ih.wait hwait

/-- A result is that of an outcome the task has come to. -/
theorem Course.result (h : Course operation comes call) {result : Except Failure α}
    (hresult : call.result? = some result) :
    ∃ outcome, comes outcome ∧ result = outcome.result operation := by
  unfold result? at hresult
  split at hresult
  · cases hresult
  · next outcome hstate =>
    cases hresult
    exact ⟨outcome, h.sound.joined outcome hstate, by rw [h.sound.name]⟩
  · next hstate =>
    cases hresult
    exact h.sound.settled result hstate

end ControlPlane.PendingCall
