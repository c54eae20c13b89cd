/-
Settings made from what the sources say. Each section knows its settings by
name and takes every name it is given to one of them, so a misspelt name is an
error and never passed over. A value is taken as it is or refused: a number is
no text, and a text is no number.
-/
import ControlPlane.Settings
import ControlPlane.Settings.Tree

namespace ControlPlane.Settings

/-- What is wrong with a value. -/
inductive Problem
  /-- It is of another type. -/
  | wrongType
  /-- It is of the type and out of range. -/
  | wrongValue
  /-- Its name is not that of a setting. -/
  | unknownName (name : String)
  deriving DecidableEq, Repr

/-- Why settings cannot be loaded. -/
inductive LoadError
  /-- The file does not hold a table. -/
  | malformed
  /-- A value, found at the end of a path, cannot be taken. -/
  | rejected (path : List String) (problem : Problem)
  deriving DecidableEq, Repr

/-- A value below `name`, seen from above it. -/
def LoadError.under (name : String) : LoadError → LoadError
  | malformed => malformed
  | rejected path problem => rejected (name :: path) problem

/-! ## Values -/

def wrongType {α : Type} : Except LoadError α := .error (.rejected [] .wrongType)

def bool : Tree → Except LoadError Bool
  | .bool b => .ok b
  | _ => wrongType

def text : Tree → Except LoadError String
  | .text s => .ok s
  | _ => wrongType

/-- A text, or nothing. -/
def optionalText : Tree → Except LoadError (Option String)
  | .absent => .ok none
  | value => some <$> text value

/-- A count of 64 bits. A negative number of 64 bits is out of its range; a
number that needs more bits is of another type. -/
def count : Tree → Except LoadError Nat
  | .int n =>
    if 0 ≤ n ∧ n < UInt64.size then .ok n.toNat
    else if -0x8000000000000000 ≤ n ∧ n < 0 then .error (.rejected [] .wrongValue)
    else wrongType
  | _ => wrongType

/-! ## Sections -/

/-- A setting of a section: its name, and how the section takes its value. -/
structure Setting (σ : Type) where
  name : String
  take : Tree → σ → Except LoadError σ

/-- A setting read by `read`. -/
def Setting.of (name : String) (read : Tree → Except LoadError α) (set : α → σ → σ) : Setting σ :=
  ⟨name, fun value s => do return set (← read value) s⟩

/-- Takes one named value. -/
def takeEntry (settings : List (Setting σ)) (s : σ) (entry : String × Tree) : Except LoadError σ :=
  match settings.find? (·.name = entry.1) with
  | none => .error (.rejected [entry.1] (.unknownName entry.1))
  | some setting => (setting.take entry.2 s).mapError (.under entry.1)

/-- Takes one value in the place of a setting. -/
def takeItem (s : σ) (item : (Setting σ × Tree) × Nat) : Except LoadError σ :=
  (item.1.1.take item.1.2 s).mapError (.under (Decimal.text item.2))

/-- Takes the values of a section, in the order they stand in. A list holds
them in the order of the settings; what it has beyond them is passed over. -/
def takeSection (settings : List (Setting σ)) (value : Tree) (s : σ) : Except LoadError σ :=
  match value with
  | .table entries => entries.foldlM (takeEntry settings) s
  | .list items => (settings.zip items).zipIdx.foldlM takeItem s
  | _ => wrongType

/-- A section within a section. -/
def Setting.group (name : String) (settings : List (Setting τ)) (get : σ → τ) (set : τ → σ → σ) :
    Setting σ :=
  ⟨name, fun value s => do return set (← takeSection settings value (get s)) s⟩

def legacySettings : List (Setting LegacySettings) :=
  [.of "endpoint" text fun v s => { s with endpoint := v },
   .of "connect_timeout_ms" count fun v s => { s with connectTimeoutMs := v },
   .of "rpc_timeout_ms" count fun v s => { s with rpcTimeoutMs := v }]

def adminSettings : List (Setting AdminSettings) :=
  [.of "base_url" text fun v s => { s with baseUrl := v },
   .of "request_timeout_ms" count fun v s => { s with requestTimeoutMs := v },
   .of "allow_insecure_http" bool fun v s => { s with allowInsecureHttp := v },
   .of "access_token" optionalText fun v s => { s with accessToken := v },
   .of "user_agent_prefix" text fun v s => { s with userAgentPrefix := v }]

def allSettings : List (Setting Settings) :=
  [.of "use_admin_api" bool fun v s => { s with useAdminApi := v },
   .of "project_id" optionalText fun v s => { s with projectId := v },
   .group "legacy" legacySettings Settings.legacy fun v s => { s with legacy := v },
   .group "admin" adminSettings Settings.admin fun v s => { s with admin := v }]

end ControlPlane.Settings
