/-
Numerals with a point or an exponent. A numeral has a digit on one side of its
point at least; its value is a whole number times a power of ten, which is kept
exactly.
-/
import ControlPlane.Double
import ControlPlane.Text.Decimal

namespace ControlPlane

structure Scientific where
  negative : Bool
  significand : Nat
  exponent : Int
  deriving DecidableEq, Repr

namespace Scientific

def isDigit (c : Char) : Bool := (Decimal.digit? c).isSome

/-- Takes a sign off the front; without one the numeral is not negative. -/
def takeSign : List Char → Bool × List Char
  | '-' :: rest => (true, rest)
  | '+' :: rest => (false, rest)
  | cs => (false, cs)

/-- The digits after a point, if there is one, and what follows them. -/
def takeFraction : List Char → List Char × List Char
  | '.' :: rest => (rest.takeWhile isDigit, rest.dropWhile isDigit)
  | cs => ([], cs)

/-- Reads an exponent that goes to the end. -/
def readExponent? : List Char → Option Int
  | [] => some 0
  | e :: rest =>
    if e = 'e' ∨ e = 'E' then
      let (negative, digits) := takeSign rest
      (Decimal.read? digits).map fun n => if negative then -(n : Int) else n
    else none

def read? (cs : List Char) : Option Scientific :=
  let (negative, cs) := takeSign cs
  let whole := cs.takeWhile isDigit
  let (fraction, rest) := takeFraction (cs.dropWhile isDigit)
  match Decimal.read? (whole ++ fraction), readExponent? rest with
  | some significand, some exponent => some ⟨negative, significand, exponent - fraction.length⟩
  | _, _ => none

/-- Whether the nearest double is finite. Only a numeral whose first digit has
the weight of the greatest double's needs to be rounded to tell. -/
def isFinite (s : Scientific) : Bool :=
  let size : Int := (Decimal.text s.significand).length + s.exponent
  if s.significand = 0 ∨ size < 309 then true
  else if 309 < size then false
  else
    let num := s.significand * Nat.pow 10 s.exponent.toNat
    let den := Nat.pow 10 (-s.exponent).toNat
    Double.nearest num den < Double.infinite

end Scientific
end ControlPlane
