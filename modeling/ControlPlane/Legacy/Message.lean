/-
Messages of the legacy service. A message is a list of slots, each with its
field number, its name and what it holds; the empty message of a type has the
default in every slot, and reading bytes fills it.
-/
import ControlPlane.Legacy.Wire

namespace ControlPlane.Legacy

/-- What a slot holds, with how its absence is told. -/
inductive Datum
  /-- Any number of texts, each a field of its own. -/
  | names (values : List String)
  /-- A text whose absence differs from its being empty. -/
  | optional (value : Option String)
  /-- A text that is left out when it is empty. -/
  | text (value : String)
  /-- A signed number of 64 bits that is left out when it is zero. -/
  | int (value : Int)
  deriving DecidableEq, Repr

structure Slot where
  number : Nat
  name : String
  datum : Datum
  deriving DecidableEq, Repr

abbrev Message := List Slot

namespace Datum

/-- A number of 64 bits, read as signed. -/
def signed (n : Nat) : Int :=
  if n < 0x8000000000000000 then n else (n : Int) - UInt64.size

/-- The 64 bits of a signed number. -/
def unsigned (n : Int) : Nat := (n % UInt64.size).toNat

/-- Takes up a field with this slot's number. The last value of a single one
counts; a payload of another kind, or bytes that are not text, are refused. -/
def add? : Datum → Wire.Payload → Option Datum
  | names values, .delimited bytes => (Utf8.decode bytes).map fun s => names (values ++ [s])
  | optional _, .delimited bytes => (Utf8.decode bytes).map fun s => optional (some s)
  | text _, .delimited bytes => (Utf8.decode bytes).map text
  | int _, .varint n => some (int (signed n))
  | _, _ => none

def fields (number : Nat) : Datum → List Wire.Field
  | names values => values.map fun s => (number, .delimited (Utf8.encode s))
  | optional none => []
  | optional (some s) => [(number, .delimited (Utf8.encode s))]
  | text s => if s = "" then [] else [(number, .delimited (Utf8.encode s))]
  | int n => if n = 0 then [] else [(number, .varint (unsigned n))]

end Datum

namespace Message

def encode (m : Message) : Bytes := Wire.write (m.flatMap fun slot => slot.datum.fields slot.number)

/-- Takes up one field; one without a slot is passed over. -/
def add? : Message → Wire.Field → Option Message
  | [], _ => some []
  | slot :: rest, (number, payload) =>
    if slot.number = number then
      (slot.datum.add? payload).map fun datum => { slot with datum } :: rest
    else (add? rest (number, payload)).map (slot :: ·)

/-- Reads bytes into the empty message of their type. -/
def decode? (empty : Message) (bytes : Bytes) : Option Message :=
  match Wire.read? bytes with
  | none => none
  | some fields => fields.foldlM add? empty

def datum? (m : Message) (number : Nat) : Option Datum :=
  (m.find? fun slot => slot.number = number).map Slot.datum

/-- The texts in a slot of that kind, none in another. -/
def names (m : Message) (number : Nat) : List String :=
  match m.datum? number with
  | some (.names values) => values
  | _ => []

def text (m : Message) (number : Nat) : String :=
  match m.datum? number with
  | some (.text value) => value
  | _ => ""

def int (m : Message) (number : Nat) : Int :=
  match m.datum? number with
  | some (.int value) => value
  | _ => 0

end Message

/-! ## The message types -/

def moduleSlot (module : Option String) : Slot := ⟨1, "module", .optional module⟩

def versionSlot (version : Option String) : Slot := ⟨2, "version", .optional version⟩

namespace Message

def getModulesRequest : Message := []

def getModulesResponse : Message := [⟨1, "module", .names []⟩]

def getVersionsRequest (module : Option String) : Message := [moduleSlot module]

def getVersionsResponse : Message := [⟨1, "version", .names []⟩]

def getDefaultVersionRequest (module : Option String) : Message := [moduleSlot module]

def getDefaultVersionResponse : Message := [⟨1, "version", .text ""⟩]

def getNumInstancesRequest (module version : Option String) : Message :=
  [moduleSlot module, versionSlot version]

def getNumInstancesResponse : Message := [⟨1, "instances", .int 0⟩]

def setNumInstancesRequest (module version : Option String) (instances : Int) : Message :=
  [moduleSlot module, versionSlot version, ⟨3, "instances", .int instances⟩]

def setNumInstancesResponse : Message := []

/-- The one request whose names are always present. -/
def startModuleRequest (module version : String) : Message :=
  [⟨1, "module", .text module⟩, ⟨2, "version", .text version⟩]

def startModuleResponse : Message := []

def stopModuleRequest (module version : Option String) : Message :=
  [moduleSlot module, versionSlot version]

def stopModuleResponse : Message := []

def getHostnameRequest (module version index : Option String) : Message :=
  [moduleSlot module, versionSlot version, ⟨3, "instance", .optional index⟩]

def getHostnameResponse : Message := [⟨1, "hostname", .text ""⟩]

end Message
end ControlPlane.Legacy
