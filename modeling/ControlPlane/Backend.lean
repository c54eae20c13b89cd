/-
What a backend can do. Two backends do it, one over the admin API and one over
the legacy service; both fail only in the ways of `Failure`. Arguments arrive
with the caller's identity already filled in.
-/
import ControlPlane.Hostname

namespace ControlPlane

inductive Mode
  | legacy
  | admin
  deriving DecidableEq, Repr

def Mode.ofFlag (useAdminApi : Bool) : Mode := if useAdminApi then admin else legacy

structure Backend (m : Type → Type) where
  mode : Mode
  listModules : ExceptT Failure m (List String)
  listVersions (module : String) : ExceptT Failure m (List String)
  defaultVersion (module : String) : ExceptT Failure m String
  instanceCount (module version : String) : ExceptT Failure m UInt32
  setInstanceCount (module version : String) (count : UInt32) : ExceptT Failure m Unit
  /-- Moves a version to a status. Where the service says so, a version that is
  there already is an `unexpectedState`. -/
  setServingStatus (module version : String) (status : ServingStatus) : ExceptT Failure m Unit
  hostname (query : HostnameQuery) : ExceptT Failure m String

end ControlPlane
