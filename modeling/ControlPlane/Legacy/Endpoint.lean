/-
Where the legacy service is, and its calls as they are sent there. A call names
the method by its path and carries the tag of the operation beside the message.
-/
import ControlPlane.Legacy.Status
import ControlPlane.Settings
import ControlPlane.Uri

namespace ControlPlane.Legacy

/-- The service whose methods are called. -/
def serviceName : String := "appengine.modules.v1.ModulesService"

/-- The metadata of a call that names the operation it is made for. -/
def callerKey : String := "x-modules-caller"

structure Endpoint where
  address : String
  connectTimeoutMs : Nat
  rpcTimeoutMs : Nat
  deriving DecidableEq, Repr

/-- A call as it is sent. -/
structure RpcCall where
  path : String
  metadata : List (String × String)
  message : Bytes
  deriving DecidableEq, Repr

/-- How an address begins that is that of a socket of this machine. -/
def localSocketFront : String := "unix:"

/-- Whether calls can be sent to an address: a URI, or a local socket. -/
def isAddress (s : String) : Bool := s.startsWith localSocketFront || (Uri.read s).toOption.isSome

/-- The endpoint that settings name, or why there is none. -/
def Endpoint.ofSettings (s : LegacySettings) : Except String Endpoint :=
  if isAddress s.endpoint then .ok ⟨s.endpoint, s.connectTimeoutMs, s.rpcTimeoutMs⟩
  else .error "invalid URI"

/-- The call of a method. -/
def RpcCall.of (method : String) (message : Bytes) (caller : String) : RpcCall :=
  ⟨s!"/{serviceName}/{method}", [(callerKey, caller)], message⟩

/-- Answers requests by calls of the service, with no second try. It has nothing
to read or change at a path. -/
def answer (perform : RpcCall → Ending) : Request → Reply
  | .call method message caller => (perform (.of method message caller)).reply
  | .get path _ | .patch path _ _ => .error (.protocol s!"no resource at {path}")

end ControlPlane.Legacy
