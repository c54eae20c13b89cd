/-
The client. It fills the gaps of an operation's arguments from the caller's
identity, checks what needs no backend, and hands the rest to one backend
method. The only failure it absorbs is that a version is already in the status
it was to be moved to.
-/
import ControlPlane.Backend

namespace ControlPlane

/-- An operation with its arguments; an absent one falls back to the caller. -/
inductive Operation
  | listModules
  | listVersions (module : Option String)
  | defaultVersion (module : Option String)
  | instanceCount (module version : Option String)
  | setInstanceCount (count : UInt32) (module version : Option String)
  | startVersion (module version : Option String)
  | stopVersion (module version : Option String)
  | hostname (module version index : Option String)
  deriving DecidableEq, Repr

def Operation.name : Operation → String
  | listModules => "list_modules"
  | listVersions _ => "list_versions"
  | defaultVersion _ => "get_default_version"
  | instanceCount _ _ => "get_instance_count"
  | setInstanceCount _ _ _ => "set_instance_count"
  | startVersion _ _ => "start_version"
  | stopVersion _ _ => "stop_version"
  | hostname _ _ _ => "get_hostname"

/-- What an operation answers. -/
inductive Answer
  | names (names : List String)
  | text (text : String)
  | count (count : UInt32)
  | done
  deriving DecidableEq, Repr

structure Client (m : Type → Type) where
  backend : Backend m
  identity : Identity

namespace Client

variable {m : Type → Type} [Monad m]

def moduleOrCurrent (c : Client m) (module : Option String) : String :=
  module.getD c.identity.moduleOrDefault

/-- The version meant for `module`. Without one there is nothing to ask for. -/
def versionOrCurrent (c : Client m) (module : String) (version : Option String) :
    ExceptT Failure m String :=
  match version <|> c.identity.version with
  | some v => pure v
  | none => throw (.unknownVersion module)

def listModules (c : Client m) : ExceptT Failure m (List String) := c.backend.listModules

def listVersions (c : Client m) (module : Option String) : ExceptT Failure m (List String) :=
  c.backend.listVersions (c.moduleOrCurrent module)

def defaultVersion (c : Client m) (module : Option String) : ExceptT Failure m String :=
  c.backend.defaultVersion (c.moduleOrCurrent module)

def instanceCount (c : Client m) (module version : Option String) : ExceptT Failure m UInt32 := do
  let module := c.moduleOrCurrent module
  let version ← c.versionOrCurrent module version
  c.backend.instanceCount module version

def setInstanceCount (c : Client m) (count : UInt32) (module version : Option String) :
    ExceptT Failure m Unit := do
  let module := c.moduleOrCurrent module
  let version ← c.versionOrCurrent module version
  c.backend.setInstanceCount module version count

/-- A version that is in the wanted status already is as good as moved. -/
def absorbUnexpectedState (change : ExceptT Failure m Unit) : ExceptT Failure m Unit :=
  tryCatch change fun
    | .unexpectedState _ => pure ()
    | failure => throw failure

def setServingStatus (c : Client m) (status : ServingStatus) (module version : Option String) :
    ExceptT Failure m Unit := do
  let module := c.moduleOrCurrent module
  let version ← c.versionOrCurrent module version
  absorbUnexpectedState (c.backend.setServingStatus module version status)

def startVersion (c : Client m) (module version : Option String) : ExceptT Failure m Unit :=
  c.setServingStatus .serving module version

def stopVersion (c : Client m) (module version : Option String) : ExceptT Failure m Unit :=
  c.setServingStatus .stopped module version

/-- The selector for a version argument: what the caller named, or its own. -/
def selector (c : Client m) : Option String → VersionSelector
  | some version => .explicit version
  | none => .current c.identity.version

def hostname (c : Client m) (module version index : Option String) : ExceptT Failure m String :=
  match parseInstance? index with
  | .error failure => throw failure
  | .ok index => c.backend.hostname ⟨c.moduleOrCurrent module, c.selector version, index⟩

def perform (c : Client m) : Operation → ExceptT Failure m Answer
  | .listModules => .names <$> c.listModules
  | .listVersions module => .names <$> c.listVersions module
  | .defaultVersion module => .text <$> c.defaultVersion module
  | .instanceCount module version => .count <$> c.instanceCount module version
  | .setInstanceCount count module version =>
    (fun _ => .done) <$> c.setInstanceCount count module version
  | .startVersion module version => (fun _ => .done) <$> c.startVersion module version
  | .stopVersion module version => (fun _ => .done) <$> c.stopVersion module version
  | .hostname module version index => .text <$> c.hostname module version index

end Client
end ControlPlane
