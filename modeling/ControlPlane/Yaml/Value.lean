/-
What a scalar stands for. A quoted one is a text. A plain one is nothing, a
truth value or a number if it is written as one, and a text otherwise; a tag
says which of these it has to be.
-/
import ControlPlane.Text.Hex
import ControlPlane.Text.Scientific
import ControlPlane.Yaml.Node

namespace ControlPlane.Yaml

inductive Value
  | null
  | bool (b : Bool)
  | int (n : Int)
  /-- A number with a fraction or an exponent, or none at all. -/
  | real
  | text (s : String)
  deriving DecidableEq, Repr

namespace Value

def isNull (s : String) : Bool := s ∈ ["null", "Null", "NULL", "~"]

def bool? (s : String) : Option Bool :=
  if s ∈ ["true", "True", "TRUE"] then some true
  else if s ∈ ["false", "False", "FALSE"] then some false
  else none

/-! ## Numbers -/

/-- Takes one sign off the front. -/
def dropSign : List Char → List Char
  | '+' :: rest | '-' :: rest => rest
  | cs => cs

def hasSign (cs : List Char) : Bool := cs.head?.any fun c => c == '+' || c == '-'

/-- Digits after a leading zero are a text and no number. -/
def isZeroLed (cs : List Char) : Bool :=
  match dropSign cs with
  | '0' :: c :: rest => (c :: rest).all Scientific.isDigit
  | _ => false

/-- The digits of a number in base sixteen, eight or two, and the base. -/
def based? : List Char → Option (Nat × List Char)
  | '0' :: 'x' :: digits => some (16, digits)
  | '0' :: 'o' :: digits => some (8, digits)
  | '0' :: 'b' :: digits => some (2, digits)
  | _ => none

/-- Puts a digit after a number. -/
def addDigit? (base n : Nat) (c : Char) : Option Nat :=
  (Hex.value? c).bind fun d => if d < base then some (n * base + d) else none

/-- The value of one or more digits in a base. -/
def ofDigits? (base : Nat) : List Char → Option Nat
  | [] => none
  | cs => cs.foldlM (addDigit? base) 0

/-- A number in a base other than ten that is at most `most`. -/
def ofBased? (most : Nat) (cs : List Char) : Option Nat :=
  match based? cs with
  | some (base, digits) => (ofDigits? base digits).filter (· ≤ most)
  | none => none

/-- The greatest number that is told apart from its neighbours, and the greatest
below zero. -/
def mostNatural : Nat := 0xFFFFFFFFFFFFFFFFFFFFFFFFFFFFFFFF

def mostNegative : Nat := 0x80000000000000000000000000000000

/-- A whole number, which may have one sign. -/
def int? (cs : List Char) : Option Int :=
  let positive := match cs with
    | '+' :: rest => rest
    | _ => cs
  let decimal (cs : List Char) (most : Nat) : Option Nat :=
    if isZeroLed cs then none else (Decimal.read? cs).filter (· ≤ most)
  match ofBased? mostNatural positive <|> decimal positive mostNatural, cs with
  | some n, _ => some n
  | none, '-' :: digits =>
    (ofBased? mostNegative digits <|> decimal digits mostNegative).map fun n => -(n : Int)
  | none, _ => none

/-- Numerals that stand for a number too great or for none. -/
def isSpecialReal (cs : List Char) : Bool :=
  let s := String.ofList cs
  let positive := match cs with
    | '+' :: rest => String.ofList rest
    | _ => s
  positive ∈ [".inf", ".Inf", ".INF"] || s ∈ ["-.inf", "-.Inf", "-.INF", ".nan", ".NaN", ".NAN"]

/-- Whether this is a number with a fraction or an exponent, or a whole one too
great for the others. -/
def isReal (cs : List Char) : Bool :=
  let positive := match cs with
    | '+' :: rest => rest
    | _ => cs
  isSpecialReal cs
    || !(cs.head? == some '+' && hasSign positive)
      && (Scientific.read? positive).any Scientific.isFinite

/-- What a plain scalar stands for. -/
def ofPlain (s : String) : Value :=
  let cs := s.toList
  if s = "" || isNull s then null
  else
    match bool? s, int? cs with
    | some b, _ => bool b
    | none, some n => int n
    | none, none => if !(isZeroLed cs) && isReal cs then real else text s

/-! ## Tags -/

/-- The tag of a type that every reader knows. -/
def knownTag (name : String) : String := "tag:yaml.org,2002:" ++ name

/-- What a scalar stands for. A tag of the application's own is not understood,
and one of another type leaves a text. -/
def ofScalar? (s : String) (plain : Bool) : Option String → Option Value
  | none => some (if plain then ofPlain s else text s)
  | some tag =>
    if tag.startsWith "!" then none
    else if tag = knownTag "bool" then (bool? s).map bool
    else if tag = knownTag "int" then (int? s.toList).map int
    else if tag = knownTag "float" then if isReal s.toList then some real else none
    else if tag = knownTag "null" then if isNull s then some null else none
    else some (text s)

end Value

/-- Whether a collection's tag is one that is understood. -/
def isKnownCollectionTag (tag : Option String) : Bool := !(tag.any (·.startsWith "!"))

end ControlPlane.Yaml
