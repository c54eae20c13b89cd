/-
From a YAML text to its tokens. Outside of brackets the collections begin and
end with indentation; and that something is a key is known only when the colon
after it is met, so the place of what may turn out to be one is remembered and
the tokens that belong in front of it are put there later.
-/
import ControlPlane.Yaml.Scalar
import ControlPlane.Yaml.Token

namespace ControlPlane.Yaml

/-- Something that may turn out to be a key: its place among the tokens and in
the text. One that begins a line of a mapping has to. -/
structure PossibleKey where
  place : Nat
  line : Nat
  column : Nat
  isRequired : Bool

/-- The most characters from the beginning of a key to its colon. -/
def keyReach : Nat := 1024

structure Layout where
  cursor : Cursor
  tokens : Array Token := #[]
  /-- Whether a key may begin here. -/
  keyAllowed : Bool := true
  /-- The column of the innermost block, `-1` outside of all. -/
  indent : Int := -1
  /-- The columns of the blocks around it. -/
  indents : List Int := []
  /-- What may be a key within the innermost brackets. -/
  candidate : Option PossibleKey := none
  /-- The same for the brackets around them, and outside of all. -/
  candidates : List (Option PossibleKey) := []

namespace Layout

/-- Whether this is between brackets. -/
def inFlow (l : Layout) : Bool := !l.candidates.isEmpty

def emit (l : Layout) (t : Token) : Layout := { l with tokens := l.tokens.push t }

/-- Emits a token that takes `count` characters. -/
def emitHere (l : Layout) (t : Token) (count : Nat) : Layout :=
  { l.emit t with cursor := l.cursor.advance count }

/-- Puts a token in front of the one at `place`. -/
def insert (l : Layout) (place : Nat) (t : Token) : Layout :=
  { l with tokens := l.tokens.insertIdxIfInBounds place t }

/-! ## Keys -/

/-- A key has to have its colon on its own line, and not too far off. -/
def stillPossible? (c : Cursor) (key : PossibleKey) : Option (Option PossibleKey) :=
  if key.line < c.line ∨ key.column + keyReach < c.column then
    if key.isRequired then none else some none
  else some (some key)

def expire? (c : Cursor) : Option PossibleKey → Option (Option PossibleKey)
  | none => some none
  | some key => stillPossible? c key

/-- Gives up what cannot be a key any more. -/
def expireKeys? (l : Layout) : Option Layout := do
  let candidate ← expire? l.cursor l.candidate
  let candidates ← l.candidates.mapM (expire? l.cursor)
  some { l with candidate, candidates }

/-- Gives up what may be a key within the innermost brackets. -/
def dropKey? (l : Layout) : Option Layout :=
  if l.candidate.any (·.isRequired) then none else some { l with candidate := none }

/-- Remembers that what comes next may be a key. -/
def saveKey? (l : Layout) : Option Layout :=
  if l.keyAllowed then
    l.dropKey?.map fun l =>
      let isRequired := !l.inFlow && l.indent == (l.cursor.column : Int)
      { l with candidate := some ⟨l.tokens.size, l.cursor.line, l.cursor.column, isRequired⟩ }
  else some l

/-! ## Indentation -/

/-- Ends the blocks that are indented more than `column`. -/
def unroll (l : Layout) (column : Int) : Layout :=
  if l.inFlow then l else go l.tokens l.indent l.indents
where
  go (tokens : Array Token) (indent : Int) : List Int → Layout
    | [] => { l with tokens, indent, indents := [] }
    | outer :: rest =>
      if column < indent then go (tokens.push .blockEnd) outer rest
      else { l with tokens, indent, indents := outer :: rest }

/-- Begins a block at `column` in front of the token at `place`, unless one is
open there. -/
def roll (l : Layout) (column place : Nat) (t : Token) : Layout :=
  if !l.inFlow && l.indent < (column : Int) then
    { l.insert place t with indent := column, indents := l.indent :: l.indents }
  else l

/-- Begins a block here. -/
def rollHere (l : Layout) (t : Token) : Layout := l.roll l.cursor.column l.tokens.size t

/-! ## Tokens -/

/-- Goes past space, comments and line ends. Outside of brackets a tab is not
space where a key may begin, and after a line end one may. -/
def skipSpace (l : Layout) : Layout :=
  let (cursor, keyAllowed) := go l.cursor.rest.length l.cursor l.keyAllowed
  { l with cursor, keyAllowed }
where
  go : (fuel : Nat) → Cursor → Bool → Cursor × Bool
    | 0, c, allowed => (c, allowed)
    | fuel + 1, c, allowed =>
      let c := if c.column == 0 && c.rest.head? == some '\ufeff' then c.advance 1 else c
      let isSpace (x : Char) := x == ' ' || ((l.inFlow || !allowed) && x == '\t')
      let c := (c.moveTo (c.rest.dropWhile isSpace)).skipComment
      match c.rest with
      | b :: _ => if isBreak b then go fuel c.newline (allowed || !l.inFlow) else (c, allowed)
      | [] => (c, allowed)

/-- A directive, or a mark between documents, ends all blocks. -/
def endBlocks? (l : Layout) : Option Layout :=
  (l.unroll (-1)).dropKey?.map fun l => { l with keyAllowed := false }

def directive? (l : Layout) : Option Layout := do
  let l ← l.endBlocks?
  let c := l.cursor.advance 1
  let (t, rest) ← readDirective? c.rest
  let c := (c.moveTo rest).skipBlanks.skipComment
  if endsWord c.rest then some { l.emit t with cursor := c.skipBreak } else none

def marker? (l : Layout) (t : Token) : Option Layout := do
  let l ← l.endBlocks?
  some (l.emitHere t 3)

def openBracket? (l : Layout) (t : Token) : Option Layout := do
  let l ← l.saveKey?
  some { l.emitHere t 1 with
    candidate := none, candidates := l.candidate :: l.candidates, keyAllowed := true }

/-- Closes brackets; outside of all there are none to close. -/
def closeBracket? (l : Layout) (t : Token) : Option Layout := do
  let l ← l.dropKey?
  let l := { l.emitHere t 1 with keyAllowed := false }
  match l.candidates with
  | [] => some l
  | outer :: rest => some { l with candidate := outer, candidates := rest }

def comma? (l : Layout) : Option Layout := do
  let l ← l.dropKey?
  some { l.emitHere .comma 1 with keyAllowed := true }

def item? (l : Layout) : Option Layout := do
  if !l.inFlow && !l.keyAllowed then none
  else
    let l ← (l.rollHere .blockSequence).dropKey?
    some { l.emitHere .item 1 with keyAllowed := true }

/-- A key that a question mark announces. -/
def key? (l : Layout) : Option Layout := do
  if !l.inFlow && !l.keyAllowed then none
  else
    let l ← (l.rollHere .blockMapping).dropKey?
    some { l.emitHere .key 1 with keyAllowed := !l.inFlow }

/-- A colon makes a key of what may be one; where nothing is, it is the colon of
an announced key or of none. -/
def value? (l : Layout) : Option Layout :=
  match l.candidate with
  | some key =>
    let l := (l.insert key.place .key).roll key.column key.place .blockMapping
    some { l.emitHere .value 1 with candidate := none, keyAllowed := false }
  | none =>
    if !l.inFlow && !l.keyAllowed then none
    else
      let l := l.rollHere .blockMapping
      some { l.emitHere .value 1 with keyAllowed := !l.inFlow }

/-- Something that may be a key or a part of one, read by `read?`. -/
def atom? (l : Layout) (read? : List Char → Option (Token × List Char)) : Option Layout := do
  let l ← l.saveKey?
  let c := l.cursor.advance 1
  let (t, rest) ← read? c.rest
  some { l.emit t with cursor := c.moveTo rest, keyAllowed := false }

/-- A scalar, after which a key may begin if it ends with a line. -/
def scalar (l : Layout) (plain : Bool) (s : Lexeme) : Layout :=
  { l.emit (.scalar (String.ofList s.text) plain) with cursor := s.cursor, keyAllowed := s.broken }

def quoted? (l : Layout) (quote : Char) : Option Layout := do
  let l ← l.saveKey?
  let s ← readQuoted? quote (l.cursor.rest.length + 1) [] (l.cursor.advance 1)
  some (l.scalar false s)

/-- A block of lines, which is no key. -/
def block? (l : Layout) (folded : Bool) : Option Layout := do
  let l ← l.dropKey?
  let s ← readBlock? folded l.indent (l.cursor.advance 1)
  some (l.scalar false { s with broken := true })

def plain? (l : Layout) : Option Layout := do
  let l ← l.saveKey?
  let fuel := l.cursor.rest.length + 1
  let s ← readPlain? l.inFlow (l.indent + 1).toNat fuel [] {} l.cursor
  some (l.scalar true s)

/-- Characters no plain scalar begins with. -/
def isIndicator (c : Char) : Bool :=
  c ∈ "-?:,[]#&*!|>'\"%@".toList || c == '\x7b' || c == '\x7d' || c.toNat == 0x60

/-- Whether a plain scalar begins here. Three indicators begin one too where
they cannot be what they else are. -/
def beginsPlain (l : Layout) (c : Char) (rest : List Char) : Bool :=
  !(endsWord [c]) && !(isIndicator c)
    || c == '-' && !(rest.head?.any isBlank)
    || !l.inFlow && (c == '?' || c == ':') && !(endsWord rest)

/-- Reads one token, of which `c` is the first character. -/
def token? (l : Layout) (c : Char) (rest : List Char) : Option Layout :=
  let stands := l.inFlow || endsWord rest
  if c == '%' && l.cursor.column == 0 then l.directive?
  else if l.cursor.atStartMarker then l.marker? .documentStart
  else if l.cursor.atEndMarker then l.marker? .documentEnd
  else if c == '[' then l.openBracket? .flowSequence
  else if c == '\x7b' then l.openBracket? .flowMapping
  else if c == ']' then l.closeBracket? .flowSequenceEnd
  else if c == '\x7d' then l.closeBracket? .flowMappingEnd
  else if c == ',' then l.comma?
  else if c == '-' && endsWord rest then l.item?
  else if c == '?' && stands then l.key?
  else if c == ':' && stands then l.value?
  else if c == '*' then l.atom? (readNamed? .alias)
  else if c == '&' then l.atom? (readNamed? .anchor)
  else if c == '!' then l.atom? (readTag? l.inFlow)
  else if c == '|' && !l.inFlow then l.block? false
  else if c == '>' && !l.inFlow then l.block? true
  else if c == '\'' || c == '"' then l.quoted? c
  else if l.beginsPlain c rest then l.plain?
  else none

/-- The end of the text is the end of a line, and ends all blocks. -/
def finish? (l : Layout) : Option (Array Token) := ((l.unroll (-1)).dropKey?).map (·.tokens)

/-- Reads tokens to the end; each takes a character of the text at least. -/
def run? : (fuel : Nat) → Layout → Option (Array Token)
  | 0, _ => none
  | fuel + 1, l =>
    match l.skipSpace.expireKeys? with
    | none => none
    | some l =>
      match l.cursor.rest with
      | [] => l.finish?
      | c :: rest =>
        match (l.unroll l.cursor.column).token? c rest with
        | none => none
        | some l => run? fuel l

end Layout

/-- The tokens of a text. -/
def tokens? (text : String) : Option (List Token) :=
  let cs := text.toList
  if cs.all isAllowed then
    (Layout.run? (cs.length + 1) { cursor := { rest := unifyBreaks cs } }).map (·.toList)
  else none

end ControlPlane.Yaml
