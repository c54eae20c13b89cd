/-
JSON as it is written. Reading builds the tree of a text and interprets none
of it: the pieces of a string may not be text and a numeral may stand for no
number, which only those who use the value find out. So whatever a reply holds
besides what is asked for cannot spoil it, as long as it is well-formed.
-/
import ControlPlane.Json.Numeral

namespace ControlPlane

namespace Json

/-- A piece of a string: a byte, or a 16-bit unit written as an escape. -/
inductive Piece
  | byte (b : UInt8)
  | unit (u : Nat)
  deriving DecidableEq, Repr

abbrev RawText := List Piece

end Json

inductive Json
  | null
  | bool (b : Bool)
  | number (n : Json.Numeral)
  | string (text : Json.RawText)
  | array (items : List Json)
  | object (members : List (Json.RawText × Json))

namespace Json

/-! ## Strings -/

/-- Units that only stand for a character as the first of two. -/
def isHigh (u : Nat) : Bool := 0xD800 ≤ u && u ≤ 0xDBFF

/-- Units that only stand for a character as the second of two. -/
def isLow (u : Nat) : Bool := 0xDC00 ≤ u && u ≤ 0xDFFF

def pair (high low : Nat) : Char := Char.ofNat (0x10000 + (high - 0xD800) * 0x400 + (low - 0xDC00))

namespace RawText

/-- The bytes of a string; a unit that needs a partner and has none is refused. -/
def bytes? : RawText → Option Bytes
  | [] => some []
  | .byte b :: rest => (bytes? rest).map (b :: ·)
  | .unit u :: rest =>
    if isHigh u then
      match rest with
      | .unit v :: rest =>
        if isLow v then (bytes? rest).map (String.utf8EncodeChar (pair u v) ++ ·) else none
      | _ => none
    else if isLow u then none
    else (bytes? rest).map (String.utf8EncodeChar (Char.ofNat u) ++ ·)

def decode? (raw : RawText) : Option String := raw.bytes?.bind Utf8.decode

def ofString (s : String) : RawText := (Utf8.encode s).map .byte

end RawText

/-! ## Reading -/

def isSpace (b : UInt8) : Bool := b == 0x20 || b == 0x0A || b == 0x0D || b == 0x09

def skipSpace (bytes : Bytes) : Bytes := bytes.dropWhile isSpace

/-- The byte a one-letter escape stands for. -/
def escaped? (b : UInt8) : Option UInt8 :=
  match b with
  | 0x22 => some 0x22
  | 0x5C => some 0x5C
  | 0x2F => some 0x2F
  | 0x62 => some 0x08
  | 0x66 => some 0x0C
  | 0x6E => some 0x0A
  | 0x72 => some 0x0D
  | 0x74 => some 0x09
  | _ => none

def hexValue? (b : UInt8) : Option Nat :=
  if 0x30 ≤ b ∧ b ≤ 0x39 then some (b.toNat - 0x30)
  else if 0x41 ≤ b ∧ b ≤ 0x46 then some (b.toNat - 0x37)
  else if 0x61 ≤ b ∧ b ≤ 0x66 then some (b.toNat - 0x57)
  else none

/-- The unit of four hexadecimal digits. -/
def unit? (a b c d : UInt8) : Option Nat := do
  pure (((← hexValue? a) * 16 + (← hexValue? b)) * 256 + (← hexValue? c) * 16 + (← hexValue? d))

/-- Reads a string after its opening quote. -/
def readString? : Bytes → Option (RawText × Bytes)
  | [] => none
  | b :: rest =>
    if b == 0x22 then some ([], rest)
    else if b == 0x5C then
      match rest with
      | 0x75 :: x :: y :: z :: w :: rest =>
        match unit? x y z w, readString? rest with
        | some u, some (text, rest) => some (.unit u :: text, rest)
        | _, _ => none
      | e :: rest =>
        match escaped? e, readString? rest with
        | some c, some (text, rest) => some (.byte c :: text, rest)
        | _, _ => none
      | [] => none
    else if b < 0x20 then none
    else
      match readString? rest with
      | some (text, rest) => some (.byte b :: text, rest)
      | none => none

mutual

/-- Reads the value in front. Each call but those that read a list takes at
least one byte, so twice the length of the bytes is fuel enough. -/
def readValue? : (fuel : Nat) → Bytes → Option (Json × Bytes)
  | 0, _ => none
  | fuel + 1, bytes =>
    match skipSpace bytes with
    | 0x6E :: 0x75 :: 0x6C :: 0x6C :: rest => some (null, rest)
    | 0x74 :: 0x72 :: 0x75 :: 0x65 :: rest => some (bool true, rest)
    | 0x66 :: 0x61 :: 0x6C :: 0x73 :: 0x65 :: rest => some (bool false, rest)
    | 0x22 :: rest => (readString? rest).map fun (text, rest) => (string text, rest)
    | 0x5B :: rest =>
      match skipSpace rest with
      | 0x5D :: rest => some (array [], rest)
      | rest => (readItems? fuel rest).map fun (items, rest) => (array items, rest)
    | 0x7B :: rest =>
      match skipSpace rest with
      | 0x7D :: rest => some (object [], rest)
      | rest => (readMembers? fuel rest).map fun (members, rest) => (object members, rest)
    | rest => (Numeral.read? rest).map fun (n, rest) => (number n, rest)

/-- Reads the items of an array up to its closing bracket. -/
def readItems? : (fuel : Nat) → Bytes → Option (List Json × Bytes)
  | 0, _ => none
  | fuel + 1, bytes =>
    match readValue? fuel bytes with
    | none => none
    | some (item, rest) =>
      match skipSpace rest with
      | 0x2C :: rest => (readItems? fuel rest).map fun (items, rest) => (item :: items, rest)
      | 0x5D :: rest => some ([item], rest)
      | _ => none

/-- Reads the members of an object up to its closing brace. -/
def readMembers? : (fuel : Nat) → Bytes → Option (List (RawText × Json) × Bytes)
  | 0, _ => none
  | fuel + 1, bytes =>
    match skipSpace bytes with
    | 0x22 :: rest =>
      match readString? rest with
      | none => none
      | some (key, rest) =>
        match skipSpace rest with
        | 0x3A :: rest =>
          match readValue? fuel rest with
          | none => none
          | some (value, rest) =>
            match skipSpace rest with
            | 0x2C :: rest =>
              (readMembers? fuel rest).map fun (members, rest) => ((key, value) :: members, rest)
            | 0x7D :: rest => some ([(key, value)], rest)
            | _ => none
        | _ => none
    | _ => none

end

/-- Reads bytes that are one value, with nothing but space around it. -/
def read? (bytes : Bytes) : Option Json :=
  match readValue? (2 * bytes.length + 2) bytes with
  | some (value, rest) => if (skipSpace rest).isEmpty then some value else none
  | none => none

/-! ## Writing -/

def hexDigit (n : Nat) : UInt8 := UInt8.ofNat (if n < 10 then 0x30 + n else 0x57 + n)

def writePiece : Piece → Bytes
  | .unit u =>
    [0x5C, 0x75, hexDigit (u / 4096 % 16), hexDigit (u / 256 % 16), hexDigit (u / 16 % 16),
      hexDigit (u % 16)]
  | .byte b =>
    match b with
    | 0x22 => [0x5C, 0x22]
    | 0x5C => [0x5C, 0x5C]
    | 0x08 => [0x5C, 0x62]
    | 0x0C => [0x5C, 0x66]
    | 0x0A => [0x5C, 0x6E]
    | 0x0D => [0x5C, 0x72]
    | 0x09 => [0x5C, 0x74]
    | b => [b]

def writeString (text : RawText) : Bytes := 0x22 :: text.flatMap writePiece ++ [0x22]

mutual

/-- Writes a value without space between its parts. -/
def write : Json → Bytes
  | null => [0x6E, 0x75, 0x6C, 0x6C]
  | bool true => [0x74, 0x72, 0x75, 0x65]
  | bool false => [0x66, 0x61, 0x6C, 0x73, 0x65]
  | number n => n.write
  | string text => writeString text
  | array items => 0x5B :: writeItems items
  | object members => 0x7B :: writeMembers members

/-- The items of an array and its closing bracket. -/
def writeItems : List Json → Bytes
  | [] => [0x5D]
  | [item] => write item ++ [0x5D]
  | item :: rest => write item ++ 0x2C :: writeItems rest

/-- The members of an object and its closing brace. -/
def writeMembers : List (RawText × Json) → Bytes
  | [] => [0x7D]
  | [(key, value)] => writeString key ++ 0x3A :: write value ++ [0x7D]
  | (key, value) :: rest => writeString key ++ 0x3A :: write value ++ 0x2C :: writeMembers rest

end

end Json
end ControlPlane
