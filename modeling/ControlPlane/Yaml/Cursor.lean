/-
Reading a YAML text. Line ends are written in one way before anything else is
looked at, so that every line end is one character; a cursor then knows its
line and its column, which is what layout is decided by. Words in one scalar
are parted by gaps, and a gap that goes over a line end is folded.
-/

namespace ControlPlane.Yaml

def isBlank (c : Char) : Bool := c == ' ' || c == '\t'

/-- Characters that end a line. The two separators of Unicode stay themselves
where others become line feeds. -/
def isBreak (c : Char) : Bool := c == '\n' || c == '\u2028' || c == '\u2029'

/-- Characters a text may hold. -/
def isAllowed (c : Char) : Bool :=
  let n := c.toNat
  n == 0x09 || n == 0x0A || n == 0x0D || (0x20 ≤ n && n ≤ 0x7E) || n == 0x85
    || (0xA0 ≤ n && n ≤ 0xD7FF) || (0xE000 ≤ n && n ≤ 0xFFFD) || 0x10000 ≤ n

/-- The other ways to end a line become the line feed. -/
def unifyBreaks : List Char → List Char
  | '\r' :: '\n' :: rest => '\n' :: unifyBreaks rest
  | c :: rest => (if c == '\r' || c == '\x85' then '\n' else c) :: unifyBreaks rest
  | [] => []

/-- Whether what comes next ends a word: a blank, a line end, or the end. -/
def endsWord : List Char → Bool
  | [] => true
  | c :: _ => isBlank c || isBreak c

/-- The line up to its end. -/
def restOfLine (cs : List Char) : List Char := cs.takeWhile (!isBreak ·)

structure Cursor where
  rest : List Char
  line : Nat := 0
  column : Nat := 0

namespace Cursor

/-- Goes on by characters of one line. -/
def advance (c : Cursor) (count : Nat) : Cursor :=
  { c with rest := c.rest.drop count, column := c.column + count }

/-- Goes on to where `rest`, which is further along the line, begins. -/
def moveTo (c : Cursor) (rest : List Char) : Cursor := c.advance (c.rest.length - rest.length)

/-- Goes on past a line end. -/
def newline (c : Cursor) : Cursor := ⟨c.rest.drop 1, c.line + 1, 0⟩

/-- Goes on past a line end, if there is one here. -/
def skipBreak (c : Cursor) : Cursor :=
  match c.rest with
  | b :: _ => if isBreak b then c.newline else c
  | [] => c

def skipBlanks (c : Cursor) : Cursor := c.moveTo (c.rest.dropWhile isBlank)

/-- Goes on past a comment, if there is one here. -/
def skipComment (c : Cursor) : Cursor :=
  match c.rest with
  | '#' :: _ => c.advance (restOfLine c.rest).length
  | _ => c

/-- Whether a document begins here, and is said to. -/
def atStartMarker (c : Cursor) : Bool :=
  c.column == 0 && match c.rest with
    | '-' :: '-' :: '-' :: rest => endsWord rest
    | _ => false

/-- Whether a document ends here, and is said to. -/
def atEndMarker (c : Cursor) : Bool :=
  c.column == 0 && match c.rest with
    | '.' :: '.' :: '.' :: rest => endsWord rest
    | _ => false

def atMarker (c : Cursor) : Bool := c.atStartMarker || c.atEndMarker

end Cursor

/-! ## Gaps -/

/-- What parts two words: blanks, or a line end with perhaps more of them after
it, and the blanks around those. -/
structure Gap where
  blanks : List Char := []
  broken : Bool := false
  /-- The first line end, unless that was escaped. -/
  first : Option Char := none
  /-- The line ends after the first. -/
  later : List Char := []
  /-- A tab stands where a line has to be indented. -/
  hasTab : Bool := false

namespace Gap

/-- What a gap reads as. One line end becomes a space, and of more than one
the first is left out. -/
def text (g : Gap) : List Char :=
  if !g.broken then g.blanks
  else
    match g.first with
    | some '\n' => if g.later.isEmpty then [' '] else g.later
    | some b => b :: g.later
    | none => g.later

/-- Blanks count only before the first line end. -/
def addBlank (g : Gap) (b : Char) : Gap :=
  if g.broken then g else { g with blanks := g.blanks ++ [b] }

def addBreak (g : Gap) (b : Char) : Gap :=
  if g.broken then { g with later := g.later ++ [b] }
  else { g with broken := true, first := some b }

/-- Goes on to the end of the gap. Lines have to be indented to `column`. -/
def skip (column : Nat) (g : Gap) (c : Cursor) : Gap × Cursor :=
  go g c.line c.column c.rest
where
  go (g : Gap) (line here : Nat) : List Char → Gap × Cursor
    | [] => (g, ⟨[], line, here⟩)
    | c :: rest =>
      if isBlank c then
        let tab := g.broken && c == '\t' && here < column
        go { g.addBlank c with hasTab := g.hasTab || tab } line (here + 1) rest
      else if isBreak c then go (g.addBreak c) (line + 1) 0 rest
      else (g, ⟨c :: rest, line, here⟩)

end Gap
end ControlPlane.Yaml
