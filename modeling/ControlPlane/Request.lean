/-
Requests to the service behind a backend, and what comes back. A request
carries the tag of the client operation that makes it.
-/
import ControlPlane.Dialogue
import ControlPlane.Fault
import ControlPlane.Text.Utf8

namespace ControlPlane

inductive Request
  /-- Reads the admin resource at a path relative to the API root. -/
  | get (path caller : String)
  /-- Changes the admin resource at a path relative to the API root. -/
  | patch (path : String) (body : Bytes) (caller : String)
  /-- Calls a method of the modules service with an encoded message. -/
  | call (method : String) (message : Bytes) (caller : String)
  deriving DecidableEq, Repr

def Request.caller : Request → String
  | get _ caller | patch _ _ caller | call _ _ caller => caller

/-- A body, or why there is none. -/
abbrev Reply := Except Fault Bytes

/-- A dialogue with the service behind a backend. -/
abbrev Exchange := Dialogue Request Reply

/-- Makes one request, which fails as its reply does. -/
def Exchange.send (request : Request) : ExceptT Fault Exchange Bytes :=
  ExceptT.mk (Dialogue.ask request)

end ControlPlane
