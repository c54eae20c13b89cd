/-
Double-precision numbers, as their 64 bits. Comparison is the total order on
bit patterns, in which negative zero is below zero. Arithmetic is exact on
whole numbers until one rounding at the end, to the nearest double and to the
even one of two equally near, so it can be computed in a proof.
-/

namespace ControlPlane

structure Double where
  bits : UInt64
  deriving DecidableEq, Repr

namespace Double

/-- The bits of positive infinity: the least pattern, sign aside, that is not
a finite number. -/
def infinite : Nat := 0x7FF0000000000000

/-- The weight of the sign bit. -/
def signBit : Nat := 0x8000000000000000

/-- The weight of an exponent: as many patterns share each. -/
def exponentStep : Nat := 0x10000000000000

/-- Whether the sign bit is set, as it is for negative zero too. -/
def isNegative (d : Double) : Bool := signBit ≤ d.bits.toNat

/-- The pattern without its sign bit. -/
def magnitude (d : Double) : Nat := d.bits.toNat % signBit

def isFinite (d : Double) : Bool := d.magnitude < infinite

/-- Below zero as a number, which negative zero is not. -/
def isBelowZero (d : Double) : Bool := d.isNegative && d.magnitude != 0 && d.magnitude ≤ infinite

/-- A double's place in the total order. -/
def rank (d : Double) : Int :=
  if d.isNegative then -(d.magnitude : Int) - 1 else d.magnitude

def ofMagnitude (negative : Bool) (m : Nat) : Double :=
  ⟨UInt64.ofNat (if negative then m + signBit else m)⟩

def zero : Double := ⟨0⟩

def one : Double := ⟨0x3FF0000000000000⟩

/-- The value of a finite pattern without its sign bit, as a fraction. -/
def fraction (m : Nat) : Nat × Nat :=
  let exponent := max (m / exponentStep) 1
  let significand := if m < exponentStep then m else m % exponentStep + exponentStep
  (significand * Nat.pow 2 (exponent - 1075), Nat.pow 2 (1075 - exponent))

/-- `num / den` divided by two to the `e`, as a fraction. -/
def scaled (num den : Nat) (e : Int) : Nat × Nat :=
  (num * Nat.pow 2 (-e).toNat, den * Nat.pow 2 e.toNat)

/-- The quotient to the nearest whole number, a half to the even one. -/
def roundEven (num den : Nat) : Nat :=
  let q := num / den
  let twice := 2 * (num % den)
  if den < twice ∨ (twice = den ∧ q % 2 = 1) then q + 1 else q

/-- The pattern nearest to `num / den`. The exponent is the one that gives the
quotient 53 bits, or the least one there is; a quotient rounded up to 54 bits
carries into the exponent by itself. -/
def nearest (num den : Nat) : Nat :=
  if num = 0 then 0
  else
    let e : Int := Nat.log2 num - Nat.log2 den - 53
    let (n, d) := scaled num den e
    let e := max (if 2 * exponentStep ≤ n / d then e + 1 else e) (-1074)
    let (n, d) := scaled num den e
    min ((e + 1074).toNat * exponentStep + roundEven n d) infinite

def ofNat (n : Nat) : Double := ofMagnitude false (nearest n 1)

def ofInt (n : Int) : Double := ofMagnitude (n < 0) (nearest n.natAbs 1)

/-- The product of two finite patterns. -/
def product (x y : Nat) : Nat :=
  let (a, b) := fraction x
  let (c, d) := fraction y
  nearest (a * c) (b * d)

/-- The quotient of two finite patterns, the second not zero. -/
def quotient (x y : Nat) : Nat :=
  let (a, b) := fraction x
  let (c, d) := fraction y
  nearest (a * d) (b * c)

/-- The pattern nearest to a power of ten. -/
def tenTo (k : Nat) : Nat := nearest (Nat.pow 10 k) 1

end Double
end ControlPlane
