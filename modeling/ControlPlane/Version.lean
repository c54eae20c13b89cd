/-
Versions of a module: whether one serves, how it is scaled, and how a caller
names one.
-/

namespace ControlPlane

inductive ServingStatus
  | serving
  | stopped
  deriving DecidableEq, Repr

namespace ServingStatus

/-- The name a service knows the status by. -/
def text : ServingStatus → String
  | serving => "SERVING"
  | stopped => "STOPPED"

/-- The status that a text names, or what is said of a text that names none. -/
def ofText : String → Except String ServingStatus
  | "SERVING" => .ok serving
  | "STOPPED" => .ok stopped
  | text => .error s!"unknown serving status '{text}'"

theorem ofText_text (status : ServingStatus) : ofText status.text = .ok status := by
  cases status <;> rfl

end ServingStatus

/-- How instances of a version come and go. Only those of a manually scaled
version can be addressed, from zero up to its count. -/
inductive Scaling
  | manual (instances : UInt32)
  | automatic
  | basic
  deriving DecidableEq, Repr

def Scaling.manualInstances : Scaling → Option UInt32
  | manual n => some n
  | automatic | basic => none

/-- A version as its full view reports it. -/
structure VersionDetails where
  module : String
  version : String
  scaling : Scaling
  deriving DecidableEq, Repr

/-- The version a hostname is asked for. -/
inductive VersionSelector
  /-- Named by the caller, and trusted to exist. -/
  | explicit (name : String)
  /-- The version the caller runs in, if it knows that. -/
  | current (name : Option String)
  deriving DecidableEq, Repr

namespace VersionSelector

def name : VersionSelector → Option String
  | explicit n => some n
  | current n => n

def explicit? : VersionSelector → Option String
  | explicit n => some n
  | current _ => none

end VersionSelector
end ControlPlane
