/-
Where settings come from: a file, then variables, of which each overrides what
came before it setting by setting; and last one variable that decides by itself
which backend is used.
-/
import ControlPlane.Settings.File
import ControlPlane.Settings.Load
import ControlPlane.Settings.Variable

namespace ControlPlane.Settings

/-- The variable that decides which backend is used. -/
def backendVariable : String := "MODULES_USE_ADMIN_API"

/-- A flag is up only if it says so. -/
def isTrue (flag : String) : Bool := Text.lowerAscii (Text.trim flag) = "true"

/-- The flag in `backendVariable`, where it is set at all, replaces the setting. -/
def applyFlag (flag : Option String) (s : Settings) : Settings :=
  match flag with
  | some flag => { s with useAdminApi := isTrue flag }
  | none => s

/-- The settings that a file's tree and variables make. -/
def ofSources (file : Tree) (environment : List (String × String)) : Except LoadError Settings :=
  takeSection allSettings (Tree.merge file (ofVariables environment)) {}

/-- Loads settings from the bytes of a file, if there is one, and variables. -/
def load (file : Option Bytes) (environment : List (String × String)) : Except LoadError Settings :=
  match file.elim (some .nothing) ofFile? with
  | none => .error .malformed
  | some tree => (ofSources tree environment).map (applyFlag (environment.lookup backendVariable))

end ControlPlane.Settings
