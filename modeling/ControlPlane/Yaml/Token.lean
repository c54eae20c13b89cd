/-
The tokens of a YAML text: what stands in it, and where the collections begin
and end that only layout shows. Tags, names and directives, which are a token
each, are read here.
-/
import ControlPlane.Text.Decimal
import ControlPlane.Text.Hex
import ControlPlane.Yaml.Cursor

namespace ControlPlane.Yaml

inductive Token
  /-- A directive that names a version of the format. -/
  | version (major minor : Nat)
  /-- A directive that gives a handle of tags its meaning. -/
  | tagHandle (handle meaning : String)
  | documentStart
  | documentEnd
  | blockSequence
  | blockMapping
  /-- The end of the innermost block. -/
  | blockEnd
  | flowSequence
  | flowSequenceEnd
  | flowMapping
  | flowMappingEnd
  /-- The dash in front of an item. -/
  | item
  | comma
  | key
  | value
  | alias (name : String)
  | anchor (name : String)
  | tag (handle suffix : String)
  | scalar (text : String) (plain : Bool)
  deriving DecidableEq, Repr

/-- Characters of names. -/
def isNameChar (c : Char) : Bool :=
  ('0' ≤ c && c ≤ '9') || ('A' ≤ c && c ≤ 'Z') || ('a' ≤ c && c ≤ 'z') || c == '_' || c == '-'

/-! ## Aliases and anchors -/

/-- What may follow a name at once. -/
def endsName (cs : List Char) : Bool :=
  endsWord cs || match cs with
    | c :: _ => c ∈ ['?', ':', ',', ']', '\x7d', '%', '@', Char.ofNat 0x60]
    | [] => true

/-- Reads the name of an alias or an anchor. -/
def readName? (cs : List Char) : Option (String × List Char) :=
  let name := cs.takeWhile isNameChar
  let rest := cs.dropWhile isNameChar
  if name.isEmpty || !(endsName rest) then none else some (String.ofList name, rest)

/-- Reads a name into the token that it makes. -/
def readNamed? (token : String → Token) (cs : List Char) : Option (Token × List Char) :=
  (readName? cs).map fun (name, rest) => (token name, rest)

/-! ## Tags -/

/-- Characters of a tag. Between angle brackets three more are. -/
def isTagChar (bracketed : Bool) (c : Char) : Bool :=
  isNameChar c || c ∈ ";/?:@&=+$.%!~*'()".toList || (bracketed && c ∈ [',', '[', ']'])

/-- How many bytes a character has that is written with this first one. -/
def byteCount? (b : Nat) : Option Nat :=
  if b < 0x80 then some 1
  else if b < 0xC0 then none
  else if b < 0xE0 then some 2
  else if b < 0xF0 then some 3
  else if b < 0xF8 then some 4
  else none

/-- Reads an escaped byte. -/
def readByte? : List Char → Option (Nat × List Char)
  | '%' :: rest => Hex.read? 2 0 rest
  | _ => none

/-- Reads bytes that continue a character. -/
def readTail? : (count : Nat) → List Char → Option (List Nat × List Char)
  | 0, cs => some ([], cs)
  | count + 1, cs =>
    match readByte? cs with
    | none => none
    | some (b, rest) =>
      if b / 0x40 = 2 then (readTail? count rest).map fun (bs, rest) => (b :: bs, rest) else none

/-- Reads an escaped character, as the bytes that are written. -/
def readEscaped? (cs : List Char) : Option (List Nat × List Char) :=
  match readByte? cs with
  | none => none
  | some (b, rest) =>
    match byteCount? b with
    | none => none
    | some count => (readTail? (count - 1) rest).map fun (bs, rest) => (b :: bs, rest)

/-- Reads what there is of a tag. Each character takes one of `fuel`. -/
def readTagChars? (bracketed : Bool) : (fuel : Nat) → List Char → Option (List Char × List Char)
  | 0, cs => some ([], cs)
  | _ + 1, [] => some ([], [])
  | fuel + 1, c :: rest =>
    if !(isTagChar bracketed c) then some ([], c :: rest)
    else if c == '%' then
      match readEscaped? (c :: rest) with
      | none => none
      | some (bytes, rest) =>
        (readTagChars? bracketed fuel rest).map fun (cs, rest) => (bytes.map Char.ofNat ++ cs, rest)
    else (readTagChars? bracketed fuel rest).map fun (cs, rest) => (c :: cs, rest)

/-- Reads a part of a tag that has at least one character. -/
def readTagPart? (bracketed : Bool) (cs : List Char) : Option (List Char × List Char) :=
  match readTagChars? bracketed cs.length cs with
  | some ([], _) => none
  | part => part

/-- Takes a handle after its exclamation mark: a name, and whether a second mark
follows it. -/
def takeHandle (cs : List Char) : List Char × Bool × List Char :=
  let name := cs.takeWhile isNameChar
  match cs.dropWhile isNameChar with
  | '!' :: rest => (name, true, rest)
  | rest => (name, false, rest)

/-- Reads a tag after its exclamation mark, up to what ends it. -/
def readTagBody? (cs : List Char) : Option (Token × List Char) :=
  match cs with
  | '<' :: rest =>
    match readTagPart? true rest with
    | some (uri, '>' :: rest) => some (.tag "" (String.ofList uri), rest)
    | _ => none
  | _ =>
    match takeHandle cs with
    | (name, true, rest) =>
      (readTagPart? false rest).map fun (suffix, rest) =>
        (.tag (String.ofList ('!' :: name ++ ['!'])) (String.ofList suffix), rest)
    | (name, false, rest) =>
      (readTagChars? false rest.length rest).map fun (suffix, rest) =>
        if name.isEmpty && suffix.isEmpty then (.tag "" "!", rest)
        else (.tag "!" (String.ofList (name ++ suffix)), rest)

/-- Reads a tag after its exclamation mark. -/
def readTag? (flow : Bool) (cs : List Char) : Option (Token × List Char) :=
  match readTagBody? cs with
  | some (tag, rest) =>
    if endsWord rest || (flow && rest.head? == some ',') then some (tag, rest) else none
  | none => none

/-! ## Directives -/

/-- The most digits of a version number. -/
def mostVersionDigits : Nat := 9

def readVersionNumber? (cs : List Char) : Option (Nat × List Char) :=
  let digits := cs.takeWhile fun c => (Decimal.digit? c).isSome
  if mostVersionDigits < digits.length then none
  else (Decimal.read? digits).map (·, cs.drop digits.length)

def readVersion? (cs : List Char) : Option (Token × List Char) :=
  match readVersionNumber? cs with
  | some (major, '.' :: rest) =>
    (readVersionNumber? rest).map fun (minor, rest) => (.version major minor, rest)
  | _ => none

/-- Reads the handle of a tag directive: one mark alone, or two around a name. -/
def readHandle? : List Char → Option (String × List Char)
  | '!' :: rest =>
    match takeHandle rest with
    | (name, true, rest) => some (String.ofList ('!' :: name ++ ['!']), rest)
    | ([], false, rest) => some ("!", rest)
    | _ => none
  | _ => none

def readTagDirective? (cs : List Char) : Option (Token × List Char) :=
  match readHandle? cs with
  | some (handle, b :: rest) =>
    if isBlank b then
      match readTagPart? true (rest.dropWhile isBlank) with
      | some (meaning, rest) =>
        if endsWord rest then some (.tagHandle handle (String.ofList meaning), rest) else none
      | none => none
    else none
  | _ => none

/-- Reads a directive after its percent sign. -/
def readDirective? (cs : List Char) : Option (Token × List Char) :=
  let name := String.ofList (cs.takeWhile isNameChar)
  let rest := cs.dropWhile isNameChar
  if !(endsWord rest) then none
  else
    let rest := rest.dropWhile isBlank
    match name with
    | "YAML" => readVersion? rest
    | "TAG" => readTagDirective? rest
    | _ => none

end ControlPlane.Yaml
