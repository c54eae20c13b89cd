/-
What can go wrong with a single request, as the transport saw it, and the
failure the caller is told of. Only the transport kind and the meaning of
"not found" for the request decide; the detail is passed on as it came.
-/
import ControlPlane.Failure
import ControlPlane.Rpc

namespace ControlPlane

inductive Fault
  /-- An HTTP reply that is not a success. -/
  | http (status : Nat) (detail : String)
  /-- An error code of the modules service itself. -/
  | application (code : Int) (detail : String)
  | rpc (code : Rpc.Code) (detail : String)
  /-- The connection failed, or the deadline passed. -/
  | io (detail : String)
  | decode (detail : String)
  /-- The server broke the protocol in a way that trying again will not mend. -/
  | protocol (detail : String)
  /-- The request could not be built. -/
  | request (detail : String)
  deriving DecidableEq, Repr

/-- What is missing when a request's resource is not found. -/
inductive Missing
  | project
  | module
  | version
  deriving DecidableEq, Repr

namespace Fault

def text : Fault → String
  | http status d => s!"HTTP {Decimal.text status}: {d}"
  | application code d => s!"application error {Decimal.signedText code}: {d}"
  | rpc code d => s!"rpc failed with {code.description}: {d}"
  | io d => "transport failure: " ++ d
  | decode d => "undecodable response: " ++ d
  | protocol d => "protocol violation: " ++ d
  | request d => "invalid request: " ++ d

/-- The detail, without what the transport puts in front of it. -/
def detail : Fault → String
  | http _ d | application _ d | rpc _ d | io d | decode d | protocol d | request d => d

/-- Every text ends with the detail, after what tells the kind. -/
theorem text_eq (fault : Fault) : ∃ front, front ≠ "" ∧ fault.text = front ++ fault.detail := by
  cases fault with
  | http status =>
    exact ⟨s!"HTTP {Decimal.text status}: ", by simp [toString], rfl⟩
  | application code =>
    exact ⟨s!"application error {Decimal.signedText code}: ", by simp [toString], rfl⟩
  | rpc code =>
    exact ⟨s!"rpc failed with {code.description}: ", by simp [toString], rfl⟩
  | io | decode | protocol | request => exact ⟨_, by simp, rfl⟩

/-- The failure for a reply with this status. A missing project is not
something the caller named, so it is reported without a kind of its own. -/
def classifyStatus (missing : Missing) (status : Nat) (detail : String) : Failure :=
  if status = 400 then .invalidInstances detail
  else if status = 404 then
    match missing with
    | .module => .invalidModule detail
    | .version => .invalidVersion detail
    | .project => .generic s!"project not found: {detail}" (some (.http 404))
  else if 500 ≤ status then .transient detail
  else .generic detail (some (.http status))

def classify (missing : Missing) : Fault → Failure
  | http status d => classifyStatus missing status d
  | application code d => .generic d (some (.application code))
  | rpc code d => if code.isTransient then .transient d else .generic d (some (.rpc code.number))
  | io d => .transient d
  | decode d | protocol d | request d => .generic d none

end Fault
end ControlPlane
