/-
Changes to a version. A patch sets one field, and its mask names that field by
the keys that lead to it in the body.
-/
import ControlPlane.Json.Basic
import ControlPlane.Version

namespace ControlPlane.Admin

inductive Patch
  | instances (count : UInt32)
  | servingStatus (status : ServingStatus)
  deriving DecidableEq, Repr

namespace Patch

def mask : Patch → String
  | instances _ => "manualScaling.instances"
  | servingStatus _ => "servingStatus"

def json : Patch → Json
  | instances count =>
    .object [(.ofString "manualScaling",
      .object [(.ofString "instances", .number (.ofNat count.toNat))])]
  | servingStatus status => .object [(.ofString "servingStatus", .string (.ofString status.text))]

def body (p : Patch) : Bytes := p.json.write

end Patch
end ControlPlane.Admin
