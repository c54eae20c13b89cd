/-
The wire format of the legacy service's messages: a sequence of fields, each a
number and a payload whose kind says how far it reaches. So a reader can pass
over fields it does not know, and `read?` needs no message type.
-/
import ControlPlane.Text.Utf8

namespace ControlPlane.Wire

/-- What stands in a field. -/
inductive Payload
  | varint (value : Nat)
  | fixed64 (bytes : Bytes)
  | delimited (bytes : Bytes)
  | group (fields : List (Nat × Payload))
  | fixed32 (bytes : Bytes)

abbrev Field := Nat × Payload

/-! ## Varints -/

/-- Seven bits a byte, the lowest first; all but the last have the high bit.
`groups` bounds their number. -/
def varintGroups : (groups : Nat) → Nat → Bytes
  | 0, _ => []
  | k + 1, n =>
    if n < 128 then [UInt8.ofNat n] else UInt8.ofNat (n % 128 + 128) :: varintGroups k (n / 128)

/-- Ten groups hold any number of 64 bits. -/
def varint (n : Nat) : Bytes := varintGroups 10 n

/-- Reads a varint that has at most `more` bytes after its first. Of a tenth
byte only one bit fits into 64. -/
def readVarintGroups? : (more : Nat) → Bytes → Option (Nat × Bytes)
  | _, [] => none
  | 0, b :: rest => if b < 2 then some (b.toNat, rest) else none
  | k + 1, b :: rest =>
    if b < 128 then some (b.toNat, rest)
    else
      match readVarintGroups? k rest with
      | none => none
      | some (high, rest) => some (b.toNat - 128 + 128 * high, rest)

def readVarint? (bytes : Bytes) : Option (Nat × Bytes) := readVarintGroups? 9 bytes

/-! ## Fields -/

inductive Kind
  | varint
  | fixed64
  | delimited
  | startGroup
  | endGroup
  | fixed32
  deriving DecidableEq, Repr

def Kind.number : Kind → Nat
  | varint => 0
  | fixed64 => 1
  | delimited => 2
  | startGroup => 3
  | endGroup => 4
  | fixed32 => 5

def Kind.ofNumber? : Nat → Option Kind
  | 0 => some varint
  | 1 => some fixed64
  | 2 => some delimited
  | 3 => some startGroup
  | 4 => some endGroup
  | 5 => some fixed32
  | _ => none

def key (number : Nat) (kind : Kind) : Bytes := varint (number * 8 + kind.number)

/-- Reads the key in front of a payload. It has 32 bits, and fields are
numbered from one. -/
def readKey? (bytes : Bytes) : Option (Nat × Kind × Bytes) :=
  match readVarint? bytes with
  | none => none
  | some (n, rest) =>
    if UInt32.size ≤ n ∨ n < 8 then none
    else (Kind.ofNumber? (n % 8)).map fun kind => (n / 8, kind, rest)

/-- The first `count` bytes, if there are so many, and the others. -/
def take? (count : Nat) (bytes : Bytes) : Option (Bytes × Bytes) :=
  if count ≤ bytes.length then some (bytes.splitAt count) else none

/-- Reads fields up to the end of the bytes, or up to the end of the group
numbered `stop`. Every field is at least its key, so the length of the bytes
bounds their number. -/
def readFields? (readPayload? : Nat → Kind → Bytes → Option (Payload × Bytes)) (stop : Option Nat) :
    (fuel : Nat) → Bytes → Option (List Field × Bytes)
  | 0, _ => none
  | fuel + 1, bytes =>
    if bytes.isEmpty then (if stop.isNone then some ([], []) else none)
    else
      match readKey? bytes with
      | none => none
      | some (number, .endGroup, rest) => if stop = some number then some ([], rest) else none
      | some (number, kind, rest) =>
        match readPayload? number kind rest with
        | none => none
        | some (payload, rest) =>
          match readFields? readPayload? stop fuel rest with
          | none => none
          | some (fields, rest) => some ((number, payload) :: fields, rest)

/-- Reads the payload of a field with `depth - 1` levels of groups below it. -/
def readPayload? : (depth : Nat) → (number : Nat) → Kind → Bytes → Option (Payload × Bytes)
  | 0, _, _, _ => none
  | depth + 1, number, kind, bytes =>
    match kind with
    | .varint => (readVarint? bytes).map fun (n, rest) => (.varint n, rest)
    | .fixed64 => (take? 8 bytes).map fun (value, rest) => (.fixed64 value, rest)
    | .fixed32 => (take? 4 bytes).map fun (value, rest) => (.fixed32 value, rest)
    | .delimited =>
      match readVarint? bytes with
      | none => none
      | some (count, rest) =>
        (take? count rest).map fun (value, rest) => (.delimited value, rest)
    | .startGroup =>
      (readFields? (readPayload? depth) (some number) (bytes.length + 1) bytes).map
        fun (fields, rest) => (.group fields, rest)
    | .endGroup => none

/-- How deep groups may nest. -/
def depthLimit : Nat := 100

/-- The fields of a message. -/
def read? (bytes : Bytes) : Option (List Field) :=
  (readFields? (readPayload? depthLimit) none (bytes.length + 1) bytes).map (·.1)

mutual

def writeField (number : Nat) : Payload → Bytes
  | .varint n => key number .varint ++ varint n
  | .fixed64 value => key number .fixed64 ++ value
  | .fixed32 value => key number .fixed32 ++ value
  | .delimited value => key number .delimited ++ varint value.length ++ value
  | .group fields => key number .startGroup ++ write fields ++ key number .endGroup

def write : List (Nat × Payload) → Bytes
  | [] => []
  | (number, payload) :: rest => writeField number payload ++ write rest

end

end ControlPlane.Wire
