/-
The texts of scalars, in the five ways to write one. A plain scalar ends where
something else begins; a quoted one at its quote; and a block of lines where a
line is indented less than the block.
-/
import ControlPlane.Text.Decimal
import ControlPlane.Text.Hex
import ControlPlane.Yaml.Cursor

namespace ControlPlane.Yaml

/-! ## Plain scalars -/

/-- Characters that end a word between brackets. -/
def isFlowIndicator (c : Char) : Bool := c ∈ [',', '[', ']', '\x7b', '\x7d']

/-- Takes a word of a plain scalar, which may be empty. Between brackets a
colon may not touch what ends a word. -/
def takeWord? (flow : Bool) : List Char → Option (List Char × List Char)
  | [] => some ([], [])
  | c :: rest =>
    let bad := flow && c == ':' && match rest with
      | d :: _ => isFlowIndicator d || d == '?'
      | [] => false
    let stop := endsWord (c :: rest) || (c == ':' && endsWord rest) || (flow && isFlowIndicator c)
    if stop then some ([], c :: rest)
    else if bad then none
    else (takeWord? flow rest).map fun (word, rest) => (c :: word, rest)

/-- A scalar that has been read: its text, whether a line ended after it, and
where it ended. -/
structure Lexeme where
  text : List Char
  broken : Bool := false
  cursor : Cursor

/-- Reads on in a plain scalar, after `text` and a gap. Outside of brackets its
lines have to be indented to `column`. -/
def readPlain? (flow : Bool) (column : Nat) : (fuel : Nat) → (text : List Char) → Gap → Cursor →
    Option Lexeme
  | 0, _, _, _ => none
  | fuel + 1, text, gap, c =>
    if c.atMarker || c.rest.head? == some '#' then some ⟨text, gap.broken, c⟩
    else
      match takeWord? flow c.rest with
      | none => none
      | some ([], _) => some ⟨text, gap.broken, c⟩
      | some (word, rest) =>
        let text := text ++ gap.text ++ word
        let (gap, c) := Gap.skip column {} (c.moveTo rest)
        if gap.hasTab then none
        else if gap.blanks.isEmpty && !gap.broken then some ⟨text, false, c⟩
        else if !flow && c.column < column then some ⟨text, gap.broken, c⟩
        else readPlain? flow column fuel text gap c

/-! ## Quoted scalars -/

/-- The character a one-letter escape stands for. -/
def escaped? : Char → Option Char
  | '0' => some '\x00'
  | 'a' => some '\x07'
  | 'b' => some '\x08'
  | 't' => some '\t'
  | '\t' => some '\t'
  | 'n' => some '\n'
  | 'v' => some '\x0b'
  | 'f' => some '\x0c'
  | 'r' => some '\r'
  | 'e' => some '\x1b'
  | ' ' => some ' '
  | '"' => some '"'
  | '/' => some '/'
  | '\\' => some '\\'
  | 'N' => some '\x85'
  | '_' => some '\xa0'
  | 'L' => some '\u2028'
  | 'P' => some '\u2029'
  | _ => none

/-- The number of digits after an escape that gives a code point. -/
def escapeDigits? : Char → Option Nat
  | 'x' => some 2
  | 'u' => some 4
  | 'U' => some 8
  | _ => none

/-- Reads an escape after its backslash. -/
def readEscape? : List Char → Option (Char × List Char)
  | [] => none
  | e :: rest =>
    match escapeDigits? e with
    | some count => Hex.readChar? count rest
    | none => (escaped? e).map (·, rest)

/-- Takes a stretch between double quotes, up to a blank, a line end, escaped or
not, or the closing quote. Every character read is one of `fuel`. -/
def takeDouble? : (fuel : Nat) → List Char → Option (List Char × List Char)
  | 0, cs => some ([], cs)
  | _ + 1, [] => some ([], [])
  | fuel + 1, c :: rest =>
    if c == '"' || endsWord (c :: rest) then some ([], c :: rest)
    else if c == '\\' then
      match rest with
      | b :: _ =>
        if isBreak b then some ([], c :: rest)
        else
          match readEscape? rest with
          | none => none
          | some (x, rest) => (takeDouble? fuel rest).map fun (word, rest) => (x :: word, rest)
      | [] => none
    else (takeDouble? fuel rest).map fun (word, rest) => (c :: word, rest)

/-- Takes a stretch between single quotes; two quotes stand for one. -/
def takeSingle : List Char → List Char × List Char
  | [] => ([], [])
  | '\'' :: '\'' :: rest =>
    let (word, rest) := takeSingle rest
    ('\'' :: word, rest)
  | c :: rest =>
    if c == '\'' || endsWord (c :: rest) then ([], c :: rest)
    else
      let (word, rest) := takeSingle rest
      (c :: word, rest)

def takeQuoted? (quote : Char) (cs : List Char) : Option (List Char × List Char) :=
  if quote = '"' then takeDouble? cs.length cs else some (takeSingle cs)

/-- Goes past an escaped line end, with the gap that it opens. -/
def skipEscapedBreak (quote : Char) (c : Cursor) : Gap × Cursor :=
  match c.rest with
  | '\\' :: _ => if quote = '"' then ({ broken := true }, (c.advance 1).newline) else ({}, c)
  | _ => ({}, c)

/-- Reads on in a quoted scalar, up to its closing quote. -/
def readQuoted? (quote : Char) : (fuel : Nat) → (text : List Char) → Cursor → Option Lexeme
  | 0, _, _ => none
  | fuel + 1, text, c =>
    if c.atMarker || c.rest.isEmpty then none
    else
      match takeQuoted? quote c.rest with
      | none => none
      | some (word, rest) =>
        let (gap, c) := skipEscapedBreak quote (c.moveTo rest)
        if c.rest.head? == some quote then some ⟨text ++ word, false, c.advance 1⟩
        else
          let (gap, c) := Gap.skip 0 gap c
          readQuoted? quote fuel (text ++ word ++ gap.text) c

/-! ## Blocks of lines -/

/-- What becomes of the line ends at the end of a block. -/
inductive Chomp
  | strip
  | clip
  | keep
  deriving DecidableEq, Repr

def takeChomp : List Char → Chomp × List Char
  | '+' :: rest => (.keep, rest)
  | '-' :: rest => (.strip, rest)
  | cs => (.clip, cs)

/-- Takes the indentation a block is said to have, which may not be zero. -/
def takeIndent? : List Char → Option (Option Nat × List Char)
  | [] => some (none, [])
  | c :: rest =>
    match Decimal.digit? c with
    | some 0 => none
    | some n => some (some n, rest)
    | none => some (none, c :: rest)

/-- Takes what is said of a block in its first line, in either order. -/
def takeHeader? (cs : List Char) : Option (Chomp × Option Nat × List Char) :=
  match takeChomp cs with
  | (.clip, cs) =>
    match takeIndent? cs with
    | none => none
    | some (none, cs) => some (.clip, none, cs)
    | some (indent, cs) =>
      let (chomp, cs) := takeChomp cs
      some (chomp, indent, cs)
  | (chomp, cs) => (takeIndent? cs).map fun (indent, cs) => (chomp, indent, cs)

/-- Empty lines of a block: their ends, the most that one is indented, and where
the next line begins. Indentation is skipped up to `column`, or all of it while
that is not known, and holds no tabs. -/
def skipEmptyLines? (column : Option Nat) (c : Cursor) : Option (List Char × Nat × Cursor) :=
  go 0 c.line c.column c.rest
where
  go (most line here : Nat) : List Char → Option (List Char × Nat × Cursor)
    | [] => some ([], max most here, ⟨[], line, here⟩)
    | c :: rest =>
      let indenting := column.all (here < ·)
      if indenting && c == ' ' then go most line (here + 1) rest
      else if indenting && c == '\t' then none
      else if isBreak c then
        (go (max most here) (line + 1) 0 rest).map fun (ends, more) => (c :: ends, more)
      else some ([], max most here, ⟨c :: rest, line, here⟩)

/-- The lines read of a block, and the line ends after them: that of the last
line, and those of the empty lines since. -/
structure Lines where
  text : List Char := []
  last : Option Char := none
  empty : List Char
  /-- The last line begins with a blank. -/
  blank : Bool := false

namespace Lines

/-- What parts the last line from a next one. Lines that begin with a blank are
not folded. -/
def separator (folded : Bool) (ls : Lines) (nextBlank : Bool) : List Char :=
  if folded && ls.last == some '\n' && !ls.blank && !nextBlank then
    if ls.empty.isEmpty then [' '] else ls.empty
  else ls.last.toList ++ ls.empty

/-- Reads the lines that are indented to `column`. -/
def read? (folded : Bool) (column : Nat) : (fuel : Nat) → Lines → Cursor → Option (Lines × Cursor)
  | 0, ls, c => some (ls, c)
  | fuel + 1, ls, c =>
    match c.rest with
    | [] => some (ls, c)
    | first :: _ =>
      if c.column ≠ column then some (ls, c)
      else
        let line := restOfLine c.rest
        let text := ls.text ++ ls.separator folded (isBlank first) ++ line
        let c := c.advance line.length
        match skipEmptyLines? (some column) c.skipBreak with
        | none => none
        | some (empty, _, next) =>
          read? folded column fuel ⟨text, c.rest.head?, empty, isBlank first⟩ next

/-- The whole text. -/
def chomped (chomp : Chomp) (ls : Lines) : List Char :=
  match chomp with
  | .strip => ls.text
  | .clip => ls.text ++ ls.last.toList
  | .keep => ls.text ++ ls.last.toList ++ ls.empty

end Lines

/-- Reads a block after its indicator, where what is around it is indented to
`indent`, or to `-1` if nothing is. -/
def readBlock? (folded : Bool) (indent : Int) (c : Cursor) : Option Lexeme :=
  match takeHeader? c.rest with
  | none => none
  | some (chomp, more, rest) =>
    let c := (c.moveTo rest).skipBlanks.skipComment
    if !(endsWord c.rest) then none
    else
      let given := more.map fun n => (max indent 0).toNat + n
      match skipEmptyLines? given c.skipBreak with
      | none => none
      | some (empty, most, c) =>
        let column := given.getD (max most (max (indent + 1) 1).toNat)
        match Lines.read? folded column (c.rest.length + 1) { empty } c with
        | none => none
        | some (ls, c) => some ⟨ls.chomped chomp, false, c⟩

end ControlPlane.Yaml
