/-
The backend over the admin API. Operations read and change the resources of
one project; hostnames are resolved here, from the same reads the other
operations make.
-/
import ControlPlane.Admin.Listing
import ControlPlane.Admin.Patch
import ControlPlane.Backend

namespace ControlPlane.Admin

/-- The services of a project, read for `caller`. -/
def services (project caller : String) : ExceptT Fault Exchange (List Service) :=
  Listing.walk ⟨.services project, servicesPage?, caller⟩

/-- The versions of a module, read for `caller`. -/
def versions (project module caller : String) : ExceptT Fault Exchange (List VersionReply) :=
  Listing.walk ⟨.versions project module, versionsPage?, caller⟩

def version (project module version caller : String) : ExceptT Fault Exchange VersionReply :=
  fetch (VersionReply.ofJson? 1) (Path.version project module version).write caller

/-- Changes a version with one request, whose reply is not looked into. -/
def patch (project module version : String) (patch : Patch) (caller : String) :
    ExceptT Failure Exchange Unit :=
  ExceptT.adapt (Fault.classify .version) do
    let path := (Path.versionPatch project module version patch.mask).write
    let _ ← Exchange.send (.patch path patch.body caller)

def listModules (project : String) : ExceptT Failure Exchange (List String) :=
  ExceptT.adapt (Fault.classify .project) do
    pure ((← services project "get_modules").map Service.id)

def listVersions (project module : String) : ExceptT Failure Exchange (List String) :=
  ExceptT.adapt (Fault.classify .module) do
    pure ((← versions project module "get_versions").map VersionReply.id)

def defaultVersion (project module : String) : ExceptT Failure Exchange String := do
  let path := (Path.service project module).write
  let service ← ExceptT.adapt (Fault.classify .module)
    (fetch Service.ofJson? path "get_default_version")
  ExceptT.mk (pure (service.traffic.resolveDefault module))

/-- The count of a version's details, which only manual scaling has. -/
def manualCount (module version : String) (scaling : Scaling) : Except Failure UInt32 :=
  match scaling.manualInstances with
  | some count => .ok count
  | none => .error (.notManuallyScaled module version)

def instanceCount (project module version : String) : ExceptT Failure Exchange UInt32 := do
  let reply ← ExceptT.adapt (Fault.classify .module)
    (Admin.version project module version "get_num_instances")
  ExceptT.mk (pure (manualCount module version (reply.details module).scaling))

def setInstanceCount (project module version : String) (count : UInt32) :
    ExceptT Failure Exchange Unit :=
  patch project module version (.instances count) "set_num_instances"

def setServingStatus (project module version : String) (status : ServingStatus) :
    ExceptT Failure Exchange Unit :=
  let caller := match status with
    | .serving => "start_version"
    | .stopped => "stop_version"
  patch project module version (.servingStatus status) caller

/-! ## Hostnames -/

/-- The tag of every read a hostname takes. -/
def hostnameCaller : String := "get_hostname"

/-- The suffix an application reports; it has to report one. -/
def suffix? (project : String) (reported : Option String) : Except Fault String :=
  match reported.filter (· ≠ "") with
  | some suffix => .ok suffix
  | none => .error (.decode s!"application '{project}' reports no defaultHostname")

def topology (project : String) : Topology Exchange where
  moduleNames := do pure ((← services project hostnameCaller).map Service.id)
  suffix := do
    let reported ← fetch defaultHostname? (Path.application project).write hostnameCaller
    ExceptT.mk (pure (suffix? project reported))
  versionNames module := do
    pure ((← versions project module hostnameCaller).map VersionReply.id)
  versionDetails module version := do
    pure ((← Admin.version project module version hostnameCaller).details module)

def hostname (project : String) (q : HostnameQuery) : ExceptT Failure Exchange String :=
  q.resolve (topology project)

/-- The backend bound to one project. -/
def backend (project : String) : Backend Exchange where
  mode := .admin
  listModules := listModules project
  listVersions := listVersions project
  defaultVersion := defaultVersion project
  instanceCount := instanceCount project
  setInstanceCount := setInstanceCount project
  setServingStatus := setServingStatus project
  hostname := hostname project

end ControlPlane.Admin
