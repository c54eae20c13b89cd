/-
Settings in environment variables. The name of a variable, after a common
beginning, is the path of a setting; its text is a value in a small notation,
and what is not written in that notation is a text as it stands.
-/
import ControlPlane.Settings.Tree
import ControlPlane.Text.Blank
import ControlPlane.Text.Hex
import ControlPlane.Text.Scientific

namespace ControlPlane.Settings

namespace Notation

/-! ## Values -/

def isSpace (c : Char) : Bool := c ∈ [' ', '\t', '\n', '\x0c', '\r']

def skipSpace (cs : List Char) : List Char := cs.dropWhile isSpace

/-- Characters that end a bare value. -/
def isSeparator (c : Char) : Bool := c ∈ [',', '\x7b', '\x7d', '[', ']']

/-- Characters of a bare name. -/
def isNameChar (c : Char) : Bool :=
  ('a' ≤ c && c ≤ 'z') || ('A' ≤ c && c ≤ 'Z') || ('0' ≤ c && c ≤ '9') || c == '_' || c == '-'

/-- The character an escape of one letter stands for. -/
def escaped? : Char → Option Char
  | '"' => some '"'
  | '\\' => some '\\'
  | 'b' => some '\x08'
  | 'f' => some '\x0c'
  | 'n' => some '\n'
  | 'r' => some '\r'
  | 't' => some '\t'
  | _ => none

/-- Reads the rest of a quoted text, of which there are at most `fuel`
characters, and the quote at its end. -/
def readQuoted? : (fuel : Nat) → List Char → Option (List Char × List Char)
  | 0, _ => none
  | _ + 1, [] => none
  | fuel + 1, c :: cs =>
    let add (x : Char) (cs : List Char) := (readQuoted? fuel cs).map fun (s, rest) => (x :: s, rest)
    match c, cs with
    | '"', _ => some ([], cs)
    | '\\', 'u' :: cs => (Hex.readChar? 4 cs).bind fun (x, cs) => add x cs
    | '\\', 'U' :: cs => (Hex.readChar? 8 cs).bind fun (x, cs) => add x cs
    | '\\', e :: cs => (escaped? e).bind fun x => add x cs
    | '\\', [] => none
    | c, _ => if c == '\t' || (' ' ≤ c && c != '\x7f') then add c cs else none

def readString? (cs : List Char) : Option (String × List Char) :=
  match cs with
  | '"' :: rest => (readQuoted? (rest.length + 1) rest).map fun (s, rest) => (String.ofList s, rest)
  | _ => none

def readName? (cs : List Char) : Option (String × List Char) :=
  match cs with
  | '"' :: _ => readString? cs
  | _ =>
    let name := cs.takeWhile isNameChar
    if name.isEmpty then none else some (String.ofList name, cs.dropWhile isNameChar)

/-- A value without brackets or quotes: a number if it reads as one. -/
def bare (cs : List Char) : Tree :=
  if '.' ∈ cs ∧ (Scientific.read? cs).isSome then .real
  else
    match Decimal.unsigned64? cs, Decimal.signed64? cs with
    | some n, _ => .int n
    | none, some n => .int n
    | none, none => .text (String.ofList cs)

mutual

/-- Reads a value with the space around it. Every call takes a character or is
made by one that has, so the length bounds their depth. -/
def readValue? : (fuel : Nat) → List Char → Option (Tree × List Char)
  | 0, _ => none
  | fuel + 1, cs =>
    let value : Option (Tree × List Char) := match skipSpace cs with
      | 't' :: 'r' :: 'u' :: 'e' :: rest => some (.bool true, rest)
      | 'f' :: 'a' :: 'l' :: 's' :: 'e' :: rest => some (.bool false, rest)
      | '\x7b' :: rest => (readEntries? fuel rest).map fun (es, rest) => (.ofEntries es, rest)
      | '[' :: rest => (readItems? fuel rest).map fun (items, rest) => (.list items, rest)
      | '"' :: rest => (readString? ('"' :: rest)).map fun (s, rest) => (.text s, rest)
      | '\'' :: c :: '\'' :: rest => some (.text (String.ofList [c]), rest)
      | '\'' :: _ => none
      | rest =>
        some (bare (Text.trimChars (rest.takeWhile (!isSeparator ·))),
          rest.dropWhile (!isSeparator ·))
    value.map fun (value, rest) => (value, skipSpace rest)

/-- Reads the items of a list up to its closing bracket, which may follow a
comma at once. -/
def readItems? : (fuel : Nat) → List Char → Option (List Tree × List Char)
  | 0, _ => none
  | fuel + 1, cs =>
    match cs with
    | ']' :: rest => some ([], rest)
    | _ =>
      match readValue? fuel cs with
      | some (item, ',' :: rest) =>
        (readItems? fuel rest).map fun (items, rest) => (item :: items, rest)
      | some (item, ']' :: rest) => some ([item], rest)
      | _ => none

/-- Reads the entries of a table up to its closing brace, which may follow a
comma at once. -/
def readEntries? : (fuel : Nat) → List Char → Option (List (String × Tree) × List Char)
  | 0, _ => none
  | fuel + 1, cs =>
    match cs with
    | '\x7d' :: rest => some ([], rest)
    | _ =>
      match readName? (skipSpace cs) with
      | none => none
      | some (name, rest) =>
        match skipSpace rest with
        | '=' :: rest =>
          match readValue? fuel rest with
          | some (value, ',' :: rest) =>
            (readEntries? fuel rest).map fun (es, rest) => ((name, value) :: es, rest)
          | some (value, '\x7d' :: rest) => some ([(name, value)], rest)
          | _ => none
        | _ => none

end

/-- The value of a text. One that is no value to its end is a text. -/
def read (s : String) : Tree :=
  let cs := s.toList
  match readValue? (2 * cs.length + 2) cs with
  | some (value, []) => value
  | _ => .text s

end Notation

/-! ## Names -/

/-- How the names of variables for settings begin, in letters of either case. -/
def variableFront : String := "MODULES__"

/-- Two underscores, read from the left, part the names of a path as a dot does. -/
def dotted : List Char → List Char
  | '_' :: '_' :: rest => '.' :: dotted rest
  | c :: rest => c :: dotted rest
  | [] => []

/-- The pieces of `cs` between dots. -/
def pieces : List Char → List (List Char)
  | [] => [[]]
  | '.' :: rest => [] :: pieces rest
  | c :: rest =>
    match pieces rest with
    | [] => [[c]]
    | piece :: others => (c :: piece) :: others

/-- The path of the setting that a variable is for. A path has no empty names. -/
def variablePath? (name : String) : Option (List String) :=
  let cs := Text.trimChars name.toList
  let front := variableFront.toList
  if (cs.take front.length).map Char.toUpper = front then
    let path := pieces (dotted (cs.drop front.length))
    if path.any List.isEmpty then none
    else some (path.map fun piece => String.ofList (piece.map Char.toLower))
  else none

/-- What one variable says, if it is for a setting. -/
def ofVariable? (name value : String) : Option Tree :=
  (variablePath? name).map fun path => Tree.nest path (Notation.read (Text.trim value))

/-- What variables say, the later before the earlier. -/
def ofVariables (environment : List (String × String)) : Tree :=
  (environment.filterMap fun (name, value) => ofVariable? name value).foldl Tree.merge .nothing

end ControlPlane.Settings
