/-
Application error codes of the legacy service, and which of them a call takes
at their word. A code that a call does not expect is reported as it came, so
that a state nobody thought of is never taken for a known one.
-/
import ControlPlane.Fault

namespace ControlPlane.Legacy

inductive Code
  | invalidModule
  | invalidVersion
  | invalidInstances
  | transientError
  | unexpectedState
  deriving DecidableEq, Repr

namespace Code

def number : Code → Int
  | invalidModule => 1
  | invalidVersion => 2
  | invalidInstances => 3
  | transientError => 4
  | unexpectedState => 5

def ofNumber? : Int → Option Code
  | 1 => some invalidModule
  | 2 => some invalidVersion
  | 3 => some invalidInstances
  | 4 => some transientError
  | 5 => some unexpectedState
  | _ => none

/-- The failure a code means. -/
def failure (detail : String) : Code → Failure
  | invalidModule => .invalidModule detail
  | invalidVersion => .invalidVersion detail
  | invalidInstances => .invalidInstances detail
  | transientError => .transient detail
  | unexpectedState => .unexpectedState detail

theorem ofNumber?_number (c : Code) : ofNumber? c.number = some c := by
  cases c <;> rfl

end Code

/-- The codes a call expects, and those it expects without being at fault.
Only the union of the two decides what a code means. -/
structure Policy where
  expected : List Code
  ignored : List Code := []
  deriving Repr

/-- The failure of a call. What is not found without an application code is
the module. -/
def Policy.classify (policy : Policy) : Fault → Failure
  | .application code detail =>
    match Code.ofNumber? code with
    | some known =>
      if known ∈ policy.ignored ∨ known ∈ policy.expected then known.failure detail
      else (Fault.application code detail).classify .module
    | none => (Fault.application code detail).classify .module
  | fault => fault.classify .module

end ControlPlane.Legacy
