/-
Hostnames. A hostname joins its segments with dots from the most specific
one outward: instance, version, module, and the suffix of the application.
Which segments it has depends on the topology of the application and on what
the caller named, and `resolve` reads no more of the topology than the answer
needs.
-/
import ControlPlane.Fault
import ControlPlane.Identity
import ControlPlane.Text.Blank
import ControlPlane.Version

namespace ControlPlane

/-- Reads an instance argument, before anything else is looked at. -/
def parseInstance (raw : String) : Except Failure UInt32 :=
  match Decimal.unsigned? (UInt32.size - 1) (Text.trimChars raw.toList) with
  | some n => .ok (UInt32.ofNat n)
  | none => .error (.malformedInstance raw)

/-- Reads an instance argument that may be absent. -/
def parseInstance? : Option String → Except Failure (Option UInt32)
  | none => .ok none
  | some raw => (parseInstance raw).map some

/-- What is asked for once the caller's identity has filled the gaps. -/
structure HostnameQuery where
  module : String
  version : VersionSelector
  index : Option UInt32
  deriving DecidableEq, Repr

/-- The reads a resolution makes of an application. -/
structure Topology (m : Type → Type) where
  moduleNames : ExceptT Fault m (List String)
  /-- The part common to all hostnames of the application. -/
  suffix : ExceptT Fault m String
  versionNames (module : String) : ExceptT Fault m (List String)
  versionDetails (module version : String) : ExceptT Fault m VersionDetails

namespace HostnameQuery

/-- The version segment of a hostname that has to have one. -/
def versionName (q : HostnameQuery) : Except Failure String :=
  match q.version.name with
  | some version => .ok version
  | none => .error (.unknownVersion q.module)

/-- The segments from the instance to the suffix, joined. -/
def join (segments : List String) : String := ".".intercalate segments

def segment (index : UInt32) : String := Decimal.text index.toNat

/-- In an application whose only module is the default one, hostnames leave
the module out, and nothing more is read or checked. -/
def resolveSingle (q : HostnameQuery) (suffix : String) : Except Failure String := do
  let version ← q.versionName
  match q.index with
  | some i => .ok (join [segment i, version, suffix])
  | none => .ok (join [version, suffix])

/-- The hostname of one instance, which the version's scaling has to have. -/
def instanceName (q : HostnameQuery) (suffix version : String) (index : UInt32)
    (scaling : Scaling) : Except Failure String :=
  match scaling.manualInstances with
  | none => .error .noInstanceNames
  | some count =>
    if count ≤ index then .error (.instanceNotFound index q.module version)
    else .ok (join [segment index, version, q.module, suffix])

/-- A version the caller named is trusted; the one it runs in may not exist in
another module, and the hostname is then that of the module. -/
def currentName (q : HostnameQuery) (suffix : String) (current : Option String)
    (versions : List String) : String :=
  match current with
  | some version =>
    if version ∈ versions then join [version, q.module, suffix] else join [q.module, suffix]
  | none => join [q.module, suffix]

variable {m : Type → Type} [Monad m]

/-- A read of the topology. Whatever is not found, the module is. -/
def read (r : ExceptT Fault m α) : ExceptT Failure m α := r.adapt (Fault.classify .module)

/-- A decision made without reading. -/
def liftExcept (x : Except Failure α) : ExceptT Failure m α := ExceptT.mk (pure x)

/-- The hostname in an application of these modules and this suffix. -/
def address (topology : Topology m) (q : HostnameQuery) (modules : List String)
    (suffix : String) : ExceptT Failure m String :=
  if q.module ∉ modules then
    throw (.moduleNotFound q.module)
  else if modules = [defaultModule] then
    liftExcept (q.resolveSingle suffix)
  else
    match q.index, q.version with
    | some index, _ => do
      let version ← liftExcept q.versionName
      let details ← read (topology.versionDetails q.module version)
      liftExcept (q.instanceName suffix version index details.scaling)
    | none, .explicit version => pure (join [version, q.module, suffix])
    | none, .current current => do
      let versions ← read (topology.versionNames q.module)
      pure (q.currentName suffix current versions)

def resolve (topology : Topology m) (q : HostnameQuery) : ExceptT Failure m String := do
  let modules ← read topology.moduleNames
  let suffix ← read topology.suffix
  address topology q modules suffix

end HostnameQuery
end ControlPlane
