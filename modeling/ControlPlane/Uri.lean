/-
URIs, as far as requests need them: cut into scheme, authority, path and query.
A fragment is dropped. What is refused is what no request may carry: bytes that
stand for nothing in the place they are in, and authorities that are no host.
-/
import ControlPlane.Text.Blank
import ControlPlane.Text.Utf8

namespace ControlPlane

structure Uri where
  /-- In small letters where it is one that requests use. -/
  scheme : Option String
  authority : String
  path : String
  query : Option String
  deriving DecidableEq, Repr

namespace Uri

inductive Error
  | empty
  | tooLong
  | schemeTooLong
  | invalidCharacter
  | invalidAuthority
  | invalidFormat
  deriving DecidableEq, Repr

def Error.text : Error → String
  | empty => "empty string"
  | tooLong => "uri too long"
  | schemeTooLong => "scheme too long"
  | invalidCharacter => "invalid uri character"
  | invalidAuthority => "invalid authority"
  | invalidFormat => "invalid format"

/-- The most bytes a URI may have. -/
def mostBytes : Nat := 65534

/-- The most characters a scheme may have. -/
def mostSchemeChars : Nat := 64

def isLetterOrDigit (c : Char) : Bool :=
  ('a' ≤ c && c ≤ 'z') || ('A' ≤ c && c ≤ 'Z') || ('0' ≤ c && c ≤ '9')

/-! ## Scheme -/

def isSchemeChar (c : Char) : Bool :=
  isLetterOrDigit c || c == '+' || c == '-' || c == '.' || c == '~'

/-- `cs` after `front`, if it begins with that, capitals and small letters being
the same. -/
def dropFront? : (front cs : List Char) → Option (List Char)
  | [], cs => some cs
  | _ :: _, [] => none
  | f :: front, c :: cs => if f.toLower = c.toLower then dropFront? front cs else none

/-- Takes the scheme off the front, if there is one. -/
def takeScheme (cs : List Char) : Except Error (Option String × List Char) :=
  match dropFront? "http://".toList cs, dropFront? "https://".toList cs with
  | some rest, _ => .ok (some "http", rest)
  | _, some rest => .ok (some "https", rest)
  | none, none =>
    let scheme := cs.takeWhile isSchemeChar
    match cs.dropWhile isSchemeChar with
    | ':' :: '/' :: '/' :: rest =>
      if mostSchemeChars < scheme.length then .error .schemeTooLong
      else if cs.length ≤ 3 then .ok (none, cs)
      else .ok (some (String.ofList scheme), rest)
    | _ => .ok (none, cs)

/-! ## Authority -/

/-- Characters with no meaning of their own in an authority. -/
def isAuthorityChar (c : Char) : Bool :=
  isLetterOrDigit c || c ∈ "!$&'()*+,-.;=_~".toList

/-- The most colons between two of the marks that start a new count. -/
def mostColons : Nat := 8

/-- What has been seen of an authority. Colons and percent signs count from the
last `@` or `]` on: before it they belong to the user or to an address. -/
structure AuthorityScan where
  colons : Nat := 0
  opened : Bool := false
  closed : Bool := false
  percent : Bool := false
  /-- The character before is an `@`. -/
  afterAt : Bool := false

namespace AuthorityScan

def step (s : AuthorityScan) (c : Char) : Except Error AuthorityScan :=
  let s := { s with afterAt := false }
  match c with
  | ':' =>
    if mostColons ≤ s.colons then .error .invalidAuthority
    else .ok { s with colons := s.colons + 1 }
  | '[' => if s.percent || s.opened then .error .invalidAuthority else .ok { s with opened := true }
  | ']' =>
    if s.opened && !s.closed then .ok { s with closed := true, colons := 0, percent := false }
    else .error .invalidAuthority
  | '@' => .ok { s with afterAt := true, colons := 0, percent := false }
  | '%' => .ok { s with percent := true }
  | c => if isAuthorityChar c then .ok s else .error .invalidCharacter

/-- Whether an authority may end here. -/
def isComplete (s : AuthorityScan) : Bool :=
  s.opened == s.closed && s.colons ≤ 1 && !s.afterAt && !s.percent

end AuthorityScan

def endsAuthority (c : Char) : Bool := c == '/' || c == '?' || c == '#'

/-- Takes the authority, which may be empty, off the front. -/
def takeAuthority (cs : List Char) : Except Error (String × List Char) := do
  let authority := cs.takeWhile fun c => !endsAuthority c
  let s ← authority.foldlM AuthorityScan.step {}
  if s.isComplete then
    .ok (String.ofList authority, cs.dropWhile fun c => !endsAuthority c)
  else .error .invalidAuthority

/-! ## Path and query -/

/-- Characters of a path. Beyond ASCII all are let through. -/
def isPathChar (c : Char) : Bool :=
  let n := c.toNat
  n == 0x21 || n == 0x22 || (0x24 ≤ n && n ≤ 0x3B) || n == 0x3D || (0x40 ≤ n && n ≤ 0x5F)
    || 0x61 ≤ n

/-- Characters of a query. -/
def isQueryChar (c : Char) : Bool :=
  let n := c.toNat
  n == 0x21 || (0x24 ≤ n && n ≤ 0x3B) || n == 0x3D || 0x3F ≤ n

/-- Reads a path with its query, up to the fragment. -/
def readPath (cs : List Char) : Except Error (String × Option String) :=
  let cs := cs.takeWhile (· ≠ '#')
  let path := cs.takeWhile (· ≠ '?')
  let query := match cs.dropWhile (· ≠ '?') with
    | _ :: query => some query
    | [] => none
  if path.all isPathChar && (query.getD []).all isQueryChar then
    .ok (String.ofList path, query.map String.ofList)
  else .error .invalidCharacter

/-! ## The whole -/

/-- Reads a URI that has no path: an authority alone. -/
def readAuthority (cs : List Char) : Except Error Uri := do
  let (authority, rest) ← takeAuthority cs
  if rest.isEmpty then .ok ⟨none, authority, "", none⟩
  else .error (if cs.length = 1 then .invalidCharacter else .invalidFormat)

/-- Reads a URI whose scheme has been taken off. -/
def readAbsolute (scheme : String) (cs : List Char) : Except Error Uri := do
  let (authority, rest) ← takeAuthority cs
  if authority = "" then .error .invalidFormat
  else
    let (path, query) ← readPath rest
    .ok ⟨some scheme, authority, path, query⟩

def read (s : String) : Except Error Uri :=
  if mostBytes < s.utf8ByteSize then .error .tooLong
  else
    match s.toList with
    | [] => .error .empty
    | ['*'] => .ok ⟨none, "", "*", none⟩
    | '/' :: rest => do
      let (path, query) ← readPath ('/' :: rest)
      .ok ⟨none, "", path, query⟩
    | cs => do
      match ← takeScheme cs with
      | (some scheme, rest) => readAbsolute scheme rest
      | (none, _) => readAuthority cs

/-- What a request line names: the path, the root if that is empty, with the
query. -/
def target (u : Uri) : String :=
  let path := if u.path = "" then "/" else u.path
  match u.query with
  | some query => path ++ "?" ++ query
  | none => path

end Uri
end ControlPlane
