/-
Operations that run in the background. A pending call holds the task it was
submitted as until someone has waited for it, and the result from then on; the
task's outcome is turned into a result once, so nothing asked in between can
change it.
-/
import ControlPlane.Failure

namespace ControlPlane

/-- How a task came to its end. -/
inductive TaskOutcome (α : Type)
  | returned (result : Except Failure α)
  | panicked
  | cancelled

/-- What the holder is told of a task's end. -/
def TaskOutcome.result (operation : String) : TaskOutcome α → Except Failure α
  | returned result => result
  | panicked => .error (.panicked operation)
  | cancelled => .error (.wasCancelled operation)

/-- A pending call is either still joined to its task, whose outcome is there
once it has ended, or has taken the outcome. -/
inductive PendingState (α : Type)
  | joined (task : Option (TaskOutcome α))
  | settled (result : Except Failure α)

structure PendingCall (α : Type) where
  operation : String
  state : PendingState α

namespace PendingCall

/-- Submits an operation; its task has begun. -/
def submit (operation : String) : PendingCall α := ⟨operation, .joined none⟩

/-- The task ends. It does so once, and nobody need be waiting. -/
def complete (outcome : TaskOutcome α) (call : PendingCall α) : PendingCall α :=
  match call.state with
  | .joined none => { call with state := .joined (some outcome) }
  | _ => call

def isFinished (call : PendingCall α) : Bool :=
  match call.state with
  | .joined task => task.isSome
  | .settled _ => true

/-- Waiting ends with the call settled. While the task runs it goes on, and
giving it up leaves the call as it was. -/
def wait? (call : PendingCall α) : Option (PendingCall α) :=
  match call.state with
  | .joined none => none
  | .joined (some outcome) => some { call with state := .settled (outcome.result call.operation) }
  | .settled _ => some call

/-- The result, once the task has ended. -/
def result? (call : PendingCall α) : Option (Except Failure α) :=
  match call.state with
  | .joined none => none
  | .joined (some outcome) => some (outcome.result call.operation)
  | .settled result => some result

end PendingCall
end ControlPlane
