/-
Paths of admin resources, relative to the API root. A path is its segments and
its query, each piece percent-encoded when it is written; the words of the API
itself need no encoding, so only names, tokens and masks are ever changed.
-/
import ControlPlane.Text.Percent

namespace ControlPlane.Admin

structure Path where
  segments : List String
  query : List (String × String) := []
  deriving DecidableEq, Repr

namespace Path

/-- Puts a parameter at the end of the query. -/
def withQuery (p : Path) (key value : String) : Path :=
  { p with query := p.query ++ [(key, value)] }

def writeParameter (parameter : String × String) : String :=
  parameter.1 ++ "=" ++ Percent.encode parameter.2

def writeQuery : List (String × String) → String
  | [] => ""
  | query => "?" ++ "&".intercalate (query.map writeParameter)

def write (p : Path) : String :=
  "/".intercalate (p.segments.map Percent.encode) ++ writeQuery p.query

def application (project : String) : Path := ⟨["apps", project], []⟩

def services (project : String) : Path := ⟨["apps", project, "services"], []⟩

def service (project module : String) : Path := ⟨["apps", project, "services", module], []⟩

/-- All versions of a module, each in its full view. -/
def versions (project module : String) : Path :=
  ⟨["apps", project, "services", module, "versions"], [("view", "FULL")]⟩

def versionSegments (project module version : String) : List String :=
  ["apps", project, "services", module, "versions", version]

/-- A version in its full view. -/
def version (project module version : String) : Path :=
  ⟨versionSegments project module version, [("view", "FULL")]⟩

/-- A version, of which only what `mask` names is changed. -/
def versionPatch (project module version mask : String) : Path :=
  ⟨versionSegments project module version, [("updateMask", mask)]⟩

/-- The page of a listing that a token leads to; without one, the first. -/
def page (p : Path) : Option String → Path
  | none => p
  | some token => p.withQuery "pageToken" token

end Path
end ControlPlane.Admin
