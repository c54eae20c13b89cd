/-
What the admin API replies. Each type is read from strict JSON and takes only
the fields the client uses.
-/
import ControlPlane.Json.Decoder
import ControlPlane.TrafficSplit
import ControlPlane.Version

namespace ControlPlane.Admin

open Json (Record)

/-- How deep a reply may nest where it is kept. -/
def nestingLimit : Nat := 127

/-- One page of a listing. -/
structure Page (α : Type) where
  items : List α
  next : Option String

structure Service where
  id : String
  split : Option TrafficSplit

structure VersionReply where
  id : String
  manual : Option UInt32
  hasBasic : Bool
  deriving DecidableEq, Repr

/-- A split as a reply gives it. Of members with one key the last counts, and
it is dropped when it is no usable share. -/
def split? (j : Json) : Option TrafficSplit :=
  (j.entries? Json.double?).map fun entries => .ofMap (.ofList entries)

namespace Service

def traffic (s : Service) : TrafficSplit := s.split.getD .empty

/-- The split of a service stands in a record of its own. -/
def allocations? (j : Json) : Option TrafficSplit := do
  (← j.record? ["allocations"]).defaulted? "allocations" .empty split?

def ofJson? (j : Json) : Option Service := do
  let r ← j.record? ["id", "split"]
  let id ← r.required? "id" Json.string?
  let split ← r.defaulted? "split" none (Json.optional? allocations?)
  pure ⟨id, split⟩

end Service

namespace VersionReply

/-- Manual scaling counts before basic scaling. -/
def scaling (v : VersionReply) : Scaling :=
  match v.manual with
  | some count => .manual count
  | none => if v.hasBasic then .basic else .automatic

def details (v : VersionReply) (module : String) : VersionDetails := ⟨module, v.id, v.scaling⟩

/-- A count that is left out is zero. -/
def instances? (j : Json) : Option UInt32 := do
  (← j.record? ["instances"]).defaulted? "instances" 0 Json.uint32?

/-- A version inside `depth` arrays and objects, its own included. Its basic
scaling is kept whole, whatever it is. -/
def ofJson? (depth : Nat) (j : Json) : Option VersionReply := do
  let r ← j.record? ["id", "manualScaling", "basicScaling"]
  let id ← r.required? "id" Json.string?
  let manual ← r.optional? "manualScaling" instances?
  let kept (v : Json) := if v.isKeepable (nestingLimit - depth) then some () else none
  let basic ← r.optional? "basicScaling" kept
  pure ⟨id, manual, basic.isSome⟩

end VersionReply

/-- A page whose items are in the field `name`. -/
def Page.ofJson? (name : String) (item? : Json → Option α) (j : Json) : Option (Page α) := do
  let r ← j.record? [name, "nextPageToken"]
  let items ← r.defaulted? name [] (Json.list? item?)
  let next ← r.optional? "nextPageToken" Json.string?
  pure ⟨items, next⟩

/-- An application's default hostname. -/
def defaultHostname? (j : Json) : Option (Option String) := do
  (← j.record? ["defaultHostname"]).optional? "defaultHostname" Json.string?

def servicesPage? : Json → Option (Page Service) := Page.ofJson? "services" Service.ofJson?

def versionsPage? : Json → Option (Page VersionReply) :=
  Page.ofJson? "versions" (VersionReply.ofJson? 3)

/-- The message of an error body. -/
def errorMessage? (j : Json) : Option String := do
  let message? (j : Json) : Option String := do
    (← j.record? ["message"]).required? "message" Json.string?
  (← j.record? ["error"]).required? "error" message?

/-- Reads a body as a type of reply. -/
def decode? (reply? : Json → Option α) (body : Bytes) : Option α := (Json.read? body).bind reply?

end ControlPlane.Admin
