/-
The document in a YAML text, as a tree of nodes. Whatever a token list leaves
out is an empty scalar. An alias is replaced by what its anchor names, which has
to be complete; so the tree is finite, and its size is bounded by counting the
aliases that it takes to write it out.
-/
import ControlPlane.Yaml.Token

namespace ControlPlane.Yaml

inductive Node
  | scalar (text : String) (plain : Bool) (tag : Option String)
  | sequence (items : List Node) (tag : Option String)
  | mapping (entries : List (Node × Node)) (tag : Option String)

/-- A node that is left out. -/
def Node.empty : Node := .scalar "" true none

namespace Node

/-- What anchors name: a node and the aliases that it takes to write it out, or
nothing while the node is being read. -/
abbrev Anchors := List (String × Option (Node × Nat))

structure State where
  tokens : List Token
  handles : List (String × String)
  anchors : Anchors := []
  /-- The aliases followed so far, with those within what they name. -/
  jumps : Nat := 0
  /-- The marks that the document is made of: one for a scalar or an alias, two
  for a collection. -/
  marks : Nat := 0

abbrev Reader := StateT State Option

namespace Reader

/-- There is no such document. -/
def fail : Reader α := fun _ => none

def peek : Reader (Option Token) := fun s => some (s.tokens.head?, s)

def skip : Reader Unit := modify fun s => { s with tokens := s.tokens.drop 1 }

def count (marks : Nat) : Reader Unit := modify fun s => { s with marks := s.marks + marks }

/-- Takes the token `t`. -/
def expect (t : Token) : Reader Unit := do
  if (← peek) = some t then skip else fail

/-- Whether the next token is one of these. -/
def nextIs (ts : List Token) : Reader Bool := do
  match ← peek with
  | some t => pure (t ∈ ts)
  | none => pure false

end Reader

open Reader

/-- An empty scalar. -/
def absent : Reader Node := do
  count 1
  pure Node.empty

/-! ## Anchors and tags -/

def followAlias (name : String) : Reader Node := do
  match ((← get).anchors.find? (·.1 = name)).map (·.2) with
  | some (some (node, jumps)) =>
    modify fun s => { s with jumps := s.jumps + jumps + 1, marks := s.marks + 1 }
    pure node
  | _ => fail

/-- Reads a node that `anchor` names. -/
def anchored (anchor : Option String) (read : Reader Node) : Reader Node := do
  match anchor with
  | none => read
  | some name =>
    let before := (← get).jumps
    modify fun s => { s with anchors := (name, none) :: s.anchors }
    let node ← read
    modify fun s => { s with anchors := (name, some (node, s.jumps - before)) :: s.anchors }
    pure node

/-- A tag written out; its handle has to have a meaning. -/
def resolveTag (handle suffix : String) : Reader String := do
  if handle = "" then pure suffix
  else
    match (← get).handles.find? (·.1 = handle) with
    | some (_, meaning) => pure (meaning ++ suffix)
    | none => fail

/-- Reads an anchor, if there is one. -/
def readAnchor : Reader (Option String) := do
  match ← peek with
  | some (.anchor name) => skip; pure (some name)
  | _ => pure none

/-- Reads a tag, if there is one. -/
def readTag : Reader (Option (String × String)) := do
  match ← peek with
  | some (.tag handle suffix) => skip; pure (some (handle, suffix))
  | _ => pure none

/-- Reads an anchor and a tag, in either order. -/
def readProperties : Reader (Option String × Option String) := do
  let before ← readAnchor
  let tag ← readTag
  let anchor ← if before.isNone && tag.isSome then readAnchor else pure before
  match tag with
  | some (handle, suffix) => do pure (anchor, some (← resolveTag handle suffix))
  | none => pure (anchor, none)

/-! ## Nodes -/

/-- The tag `!` says of a scalar that it has none. -/
def scalarTag (tag : Option String) : Option String := tag.filter (· ≠ "!")

mutual

/-- Reads a node. Blocks begin only where `block` holds, and items without a
block around them only where `bare` does. At most three calls in a row take no
token, so four times the number of tokens bounds the depth. -/
def readNode : (fuel : Nat) → (block bare : Bool) → Reader Node
  | 0, _, _ => fail
  | fuel + 1, block, bare => do
    match ← peek with
    | some (.alias name) => skip; followAlias name
    | _ =>
      let (anchor, tag) ← readProperties
      anchored anchor do
        match ← peek with
        | some .item =>
          if bare then
            count 2
            pure (.sequence (← readItems fuel false) tag)
          else orAbsent anchor tag
        | some (.scalar text plain) =>
          skip
          count 1
          pure (.scalar text plain (scalarTag tag))
        | some .flowSequence =>
          skip
          count 2
          pure (.sequence (← readFlowItems fuel true) tag)
        | some .flowMapping =>
          skip
          count 2
          pure (.mapping (← readFlowEntries fuel true) tag)
        | some .blockSequence =>
          if block then
            skip
            count 2
            pure (.sequence (← readItems fuel true) tag)
          else orAbsent anchor tag
        | some .blockMapping =>
          if block then
            skip
            count 2
            pure (.mapping (← readEntries fuel) tag)
          else orAbsent anchor tag
        | _ => orAbsent anchor tag
where
  /-- A node may be left out where it has a name or a tag. -/
  orAbsent (anchor tag : Option String) : Reader Node := do
    if anchor.isSome || tag.isSome then
      count 1
      pure (.scalar "" true tag)
    else fail

/-- Reads a node, unless one of `ends` says that it is left out. -/
def readUnless (ends : List Token) : (fuel : Nat) → (block bare : Bool) → Reader Node
  | 0, _, _ => fail
  | fuel + 1, block, bare => do
    if ← nextIs ends then absent else readNode fuel block bare

/-- Reads items with a dash each. Those of a block go on to its end; others end
where the dashes do. -/
def readItems : (fuel : Nat) → (closed : Bool) → Reader (List Node)
  | 0, _ => fail
  | fuel + 1, closed => do
    match ← peek with
    | some .item =>
      skip
      let ends := if closed then [.item, .blockEnd] else [.item, .key, .value, .blockEnd]
      let node ← readUnless ends fuel true false
      pure (node :: (← readItems fuel closed))
    | _ =>
      if closed then expect .blockEnd
      pure []

/-- Reads the value after a key, if there is one. -/
def readValue (ends : List Token) : (fuel : Nat) → (block : Bool) → Reader Node
  | 0, _ => fail
  | fuel + 1, block => do
    if (← peek) = some .value then
      skip
      readUnless ends fuel block block
    else absent

/-- Reads the entries of a block to its end. -/
def readEntries : (fuel : Nat) → Reader (List (Node × Node))
  | 0 => fail
  | fuel + 1 => do
    match ← peek with
    | some .key =>
      skip
      let ends := [.key, .value, .blockEnd]
      let key ← readUnless ends fuel true true
      let value ← readValue ends fuel true
      pure ((key, value) :: (← readEntries fuel))
    | _ =>
      expect .blockEnd
      pure []

/-- Reads the items between square brackets. An item may be an entry, which is
a mapping of its own. -/
def readFlowItems : (fuel : Nat) → (first : Bool) → Reader (List Node)
  | 0, _ => fail
  | fuel + 1, first => do
    if !first && !(← nextIs [.flowSequenceEnd]) then expect .comma
    match ← peek with
    | some .flowSequenceEnd => skip; pure []
    | some .key =>
      skip
      count 2
      let entry ← readFlowPair fuel
      pure (.mapping [entry] none :: (← readFlowItems fuel false))
    | _ =>
      let node ← readNode fuel false false
      pure (node :: (← readFlowItems fuel false))

/-- Reads an entry between square brackets, after its mark. Where its key is
left out, so is the token that shows it. -/
def readFlowPair : (fuel : Nat) → Reader (Node × Node)
  | 0 => fail
  | fuel + 1 => do
    let ends := [.comma, .flowSequenceEnd]
    if ← nextIs (.value :: ends) then
      let key ← absent
      skip
      pure (key, ← readValue ends fuel false)
    else
      let key ← readNode fuel false false
      pure (key, ← readValue ends fuel false)

/-- Reads the entries between braces. -/
def readFlowEntries : (fuel : Nat) → (first : Bool) → Reader (List (Node × Node))
  | 0, _ => fail
  | fuel + 1, first => do
    if !first && !(← nextIs [.flowMappingEnd]) then expect .comma
    let ends := [.comma, .flowMappingEnd]
    match ← peek with
    | some .flowMappingEnd => skip; pure []
    | some .key =>
      skip
      let key ← readUnless (.value :: ends) fuel false false
      let value ← readValue ends fuel false
      pure ((key, value) :: (← readFlowEntries fuel false))
    | _ =>
      let key ← readNode fuel false false
      let value ← absent
      pure ((key, value) :: (← readFlowEntries fuel false))

end

/-! ## Documents -/

/-- The handles that need no directive. -/
def commonHandles : List (String × String) := [("!", "!"), ("!!", "tag:yaml.org,2002:")]

/-- Takes directives up to the mark of their document. A version is given once
at most, and so is the meaning of a handle. -/
def readDirectives (versioned : Bool) (handles : List (String × String)) :
    List Token → Option (List (String × String) × List Token)
  | .version major minor :: rest =>
    if !versioned && major == 1 && (minor == 1 || minor == 2) then readDirectives true handles rest
    else none
  | .tagHandle handle meaning :: rest =>
    if handles.any (·.1 = handle) then none
    else readDirectives versioned (handles ++ [(handle, meaning)]) rest
  | .documentStart :: rest => some (handles, rest)
  | _ => none

/-- How often aliases may be followed for each mark of the document. -/
def jumpsPerMark : Nat := 100

/-- Reads the one document, which goes on to the end of all tokens. -/
def ofDocument? (handles : List (String × String)) (tokens : List Token) (read : Reader Node) :
    Option Node :=
  match read.run { tokens, handles := handles ++ commonHandles } with
  | some (node, s) =>
    if s.tokens.all (· = .documentEnd) && s.jumps ≤ jumpsPerMark * s.marks then some node else none
  | none => none

/-- Reads the content of a document. -/
def readContent (tokens : List Token) : Reader Node := readNode (4 * tokens.length + 4) true false

/-- Reads the content of a document that is said to begin, which may be left
out. -/
def readMarked (tokens : List Token) : Reader Node := do
  if (← peek).all (· = .documentEnd) then absent else readContent tokens

def beginsDocument : Token → Bool
  | .version _ _ | .tagHandle _ _ | .documentStart => true
  | _ => false

/-- The document of a list of tokens. Where there are none it is empty. -/
def ofTokens? : List Token → Option Node
  | [] => some .empty
  | t :: rest =>
    if beginsDocument t then
      match readDirectives false [] (t :: rest) with
      | some (handles, tokens) => ofDocument? handles tokens (readMarked tokens)
      | none => none
    else ofDocument? [] (t :: rest) (readContent (t :: rest))

end Node
end ControlPlane.Yaml
