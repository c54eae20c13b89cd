/-
The failures a caller can meet. There are six kinds, the same whichever
backend answers; a failure of the last kind keeps the code the backend gave,
when it gave one. The wording of every failure the client finds by itself
stands here too.
-/
import ControlPlane.Text.Decimal

namespace ControlPlane

/-- A code as a backend gave it. -/
inductive Failure.Code
  | http (status : Nat)
  | application (code : Int)
  | rpc (code : Int)
  deriving DecidableEq, Repr

def Failure.Code.text : Failure.Code → String
  | http status => "http status " ++ Decimal.text status
  | application code => "application code " ++ Decimal.signedText code
  | rpc code => "rpc code " ++ Decimal.signedText code

inductive Failure.Kind
  | invalidModule
  | invalidVersion
  | invalidInstances
  | unexpectedState
  | transient
  | generic
  deriving DecidableEq, Repr

inductive Failure
  /-- The named module does not exist. -/
  | invalidModule (detail : String)
  /-- The named version does not exist, or cannot serve the request. -/
  | invalidVersion (detail : String)
  /-- The instance argument is malformed or out of range. -/
  | invalidInstances (detail : String)
  /-- The target is in the requested state already. -/
  | unexpectedState (detail : String)
  /-- The same call may succeed later. -/
  | transient (detail : String)
  /-- Anything else. -/
  | generic (detail : String) (code : Option Failure.Code)
  deriving DecidableEq, Repr

namespace Failure

def kind : Failure → Kind
  | invalidModule _ => .invalidModule
  | invalidVersion _ => .invalidVersion
  | invalidInstances _ => .invalidInstances
  | unexpectedState _ => .unexpectedState
  | transient _ => .transient
  | generic _ _ => .generic

def detail : Failure → String
  | invalidModule d | invalidVersion d | invalidInstances d | unexpectedState d | transient d
  | generic d _ => d

def code : Failure → Option Code
  | generic _ c => c
  | _ => none

def isRetryable (f : Failure) : Bool := f.kind = .transient

/-- The failure as it is shown: its kind, its detail and, in parentheses, the
code it keeps. -/
def text : Failure → String
  | invalidModule d => "invalid module: " ++ d
  | invalidVersion d => "invalid version: " ++ d
  | invalidInstances d => "invalid instances: " ++ d
  | unexpectedState d => "unexpected state: " ++ d
  | transient d => "transient error: " ++ d
  | generic d none => "modules error: " ++ d
  | generic d (some c) => "modules error: " ++ d ++ " (" ++ c.text ++ ")"

/-! ## What the client finds by itself -/

def unknownVersion (module : String) : Failure :=
  invalidVersion s!"no version given for module '{module}' and the current version is unknown"

def malformedInstance (raw : String) : Failure :=
  invalidInstances s!"instance must be a non-negative integer, got '{raw}'"

def moduleNotFound (module : String) : Failure := invalidModule s!"module '{module}' not found"

def noInstanceNames : Failure :=
  invalidInstances "instance-specific hostnames are only available for manually scaled services"

def instanceNotFound (index : UInt32) (module version : String) : Failure :=
  let shown := Decimal.text index.toNat
  invalidInstances s!"instance {shown} does not exist for {module}/{version}"

def notManuallyScaled (module version : String) : Failure :=
  invalidVersion s!"version '{version}' of module '{module}' is not manually scaled"

def noTraffic (module : String) : Failure :=
  invalidVersion s!"module '{module}' has no version receiving traffic"

def countOutOfRange (count : Int) (module version : String) : Failure :=
  let shown := Decimal.signedText count
  generic s!"instance count {shown} out of range for {module}/{version}" none

def panicked (operation : String) : Failure := generic s!"{operation} panicked" none

def wasCancelled (operation : String) : Failure := generic s!"{operation} was cancelled" none

end Failure
end ControlPlane
