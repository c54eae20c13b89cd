/-
Reading values of known types out of JSON. A record is an object whose known
keys occur at most once and whose other members are passed over, or an array
of its fields in their order; in an array no field may be missing but those
that have a default.
-/
import ControlPlane.Json.Basic

namespace ControlPlane.Json

def string? : Json → Option String
  | string text => text.decode?
  | _ => none

/-- A whole number of 32 bits; a numeral with a point or exponent is none. -/
def uint32? : Json → Option UInt32
  | number n =>
    match n.value? with
    | some (.natural k) => if k < UInt32.size then some (UInt32.ofNat k) else none
    | _ => none
  | _ => none

def double? : Json → Option Double
  | number n =>
    match n.value? with
    | some (.natural k) => some (Double.ofNat k)
    | some (.negative k) => some (Double.ofInt k)
    | some (.real d) => some d
    | none => none
  | _ => none

def list? (item? : Json → Option α) : Json → Option (List α)
  | array items => items.mapM item?
  | _ => none

/-- `null`, or a value of the type. -/
def optional? (value? : Json → Option α) : Json → Option (Option α)
  | null => some none
  | j => (value? j).map some

/-- The members of an object with their keys decoded. -/
def members? (members : List (RawText × Json)) : Option (List (String × Json)) :=
  members.mapM fun (key, value) => key.decode?.map (·, value)

/-- An object used as a map, in the order it is written. -/
def entries? (value? : Json → Option α) : Json → Option (List (String × α))
  | object members => (members? members).bind fun ms =>
      ms.mapM fun (key, value) => (value? value).map (key, ·)
  | _ => none

mutual

/-- A value that can be kept whole: its strings are text, its numbers are
numbers, and its arrays and objects nest at most `room` deep. -/
def isKeepable (room : Nat) : Json → Bool
  | null | bool _ => true
  | number n => n.value?.isSome
  | string text => text.decode?.isSome
  | array items => 0 < room && areKeepable (room - 1) items
  | object members => 0 < room && membersKeepable (room - 1) members

def areKeepable (room : Nat) : List Json → Bool
  | [] => true
  | item :: rest => isKeepable room item && areKeepable room rest

def membersKeepable (room : Nat) : List (RawText × Json) → Bool
  | [] => true
  | (key, value) :: rest =>
    key.decode?.isSome && isKeepable room value && membersKeepable room rest

end

/-! ## Records -/

/-- The fields of a record that are there, and whether they were told apart by
their places. -/
structure Record where
  fields : List (String × Json)
  positional : Bool

/-- The value of a field. -/
def Record.field? (r : Record) (name : String) : Option Json :=
  (r.fields.find? (·.1 = name)).map (·.2)

/-- Reads a record with these fields. -/
def record? (names : List String) : Json → Option Record
  | object members => do
    let known := (← members? members).filter (·.1 ∈ names)
    if (known.map (·.1)).Nodup then some ⟨known, false⟩ else none
  | array items => if items.length ≤ names.length then some ⟨names.zip items, true⟩ else none
  | _ => none

namespace Record

/-- A field that has to be there. -/
def required? (r : Record) (name : String) (value? : Json → Option α) : Option α :=
  (r.field? name).bind value?

/-- A field that may be `null` or, in an object, missing. -/
def optional? (r : Record) (name : String) (value? : Json → Option α) : Option (Option α) :=
  match r.field? name with
  | some j => Json.optional? value? j
  | none => if r.positional then none else some none

/-- A field that may be missing, with what it is then. -/
def defaulted? (r : Record) (name : String) (default : α) (value? : Json → Option α) : Option α :=
  match r.field? name with
  | some j => value? j
  | none => some default

end Record
end ControlPlane.Json
