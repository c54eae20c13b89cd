/-
The backend over the legacy service. Each operation is exactly one call; the
service answers hostnames itself, so a version is sent only when the caller
named it.
-/
import ControlPlane.Backend
import ControlPlane.Legacy.Message
import ControlPlane.Legacy.Policy
import ControlPlane.Request

namespace ControlPlane.Legacy

/-- A method of the service: its name, the tag of the operation that calls it,
the codes it expects, and the empty message of its reply. -/
structure Method where
  name : String
  caller : String
  policy : Policy
  reply : Message

namespace Method

def getModules : Method := ⟨"GetModules", "get_modules", ⟨[], []⟩, .getModulesResponse⟩

def getVersions : Method :=
  ⟨"GetVersions", "get_versions", ⟨[.invalidModule, .transientError], []⟩, .getVersionsResponse⟩

def getDefaultVersion : Method :=
  ⟨"GetDefaultVersion", "get_default_version", ⟨[.invalidModule, .invalidVersion], []⟩,
    .getDefaultVersionResponse⟩

def getNumInstances : Method :=
  ⟨"GetNumInstances", "get_num_instances", ⟨[.invalidVersion], []⟩, .getNumInstancesResponse⟩

def setNumInstances : Method :=
  ⟨"SetNumInstances", "set_num_instances", ⟨[.invalidVersion, .transientError], []⟩,
    .setNumInstancesResponse⟩

def startModule : Method :=
  ⟨"StartModule", "start_version", ⟨[.invalidVersion, .transientError], [.unexpectedState]⟩,
    .startModuleResponse⟩

def stopModule : Method :=
  ⟨"StopModule", "stop_version", ⟨[.invalidVersion, .transientError], [.unexpectedState]⟩,
    .stopModuleResponse⟩

def getHostname : Method :=
  ⟨"GetHostname", "get_hostname", ⟨[.invalidModule, .invalidInstances], []⟩, .getHostnameResponse⟩

/-- Why a reply cannot be read. -/
def undecodable : Fault := .decode "failed to decode Protobuf message"

/-- Calls the method once and reads its reply. -/
def call (method : Method) (message : Message) : ExceptT Failure Exchange Message :=
  ExceptT.adapt method.policy.classify do
    let body ← Exchange.send (.call method.name message.encode method.caller)
    match Message.decode? method.reply body with
    | some reply => pure reply
    | none => throw undecodable

end Method

/-- A count as the service gives it; one that is not a count is not wrapped. -/
def count (module version : String) (n : Int) : Except Failure UInt32 :=
  if 0 ≤ n ∧ n < UInt32.size then .ok (UInt32.ofNat n.toNat)
  else .error (.countOutOfRange n module version)

def listModules : ExceptT Failure Exchange (List String) := do
  let reply ← Method.getModules.call .getModulesRequest
  pure (reply.names 1)

def listVersions (module : String) : ExceptT Failure Exchange (List String) := do
  let reply ← Method.getVersions.call (.getVersionsRequest module)
  pure (reply.names 1)

def defaultVersion (module : String) : ExceptT Failure Exchange String := do
  let reply ← Method.getDefaultVersion.call (.getDefaultVersionRequest module)
  pure (reply.text 1)

def instanceCount (module version : String) : ExceptT Failure Exchange UInt32 := do
  let reply ← Method.getNumInstances.call (.getNumInstancesRequest module version)
  ExceptT.mk (pure (count module version (reply.int 1)))

def setInstanceCount (module version : String) (count : UInt32) :
    ExceptT Failure Exchange Unit := do
  let _ ← Method.setNumInstances.call (.setNumInstancesRequest module version count.toNat)

def setServingStatus (module version : String) : ServingStatus → ExceptT Failure Exchange Unit
  | .serving => do
    let _ ← Method.startModule.call (.startModuleRequest module version)
  | .stopped => do
    let _ ← Method.stopModule.call (.stopModuleRequest module version)

def hostname (q : HostnameQuery) : ExceptT Failure Exchange String := do
  let index := q.index.map HostnameQuery.segment
  let reply ← Method.getHostname.call (.getHostnameRequest q.module q.version.explicit? index)
  pure (reply.text 1)

def backend : Backend Exchange where
  mode := .legacy
  listModules := listModules
  listVersions := listVersions
  defaultVersion := defaultVersion
  instanceCount := instanceCount
  setInstanceCount := setInstanceCount
  setServingStatus := setServingStatus
  hostname := hostname

end ControlPlane.Legacy
