/-
Whole numbers written in decimal. A numeral is one or more ASCII digits, of
any length and with any number of leading zeros; its value is read in full
before it is compared with a bound, so a numeral too long for a machine word
is out of range and never wraps.
-/

namespace ControlPlane.Decimal

/-- The value of an ASCII digit. Digits of other scripts are not numerals. -/
def digit? (c : Char) : Option Nat :=
  if '0' ≤ c ∧ c ≤ '9' then some (c.toNat - '0'.toNat) else none

/-- The value of the digits `cs` written after a number worth `acc`. -/
def extend? (acc : Nat) : List Char → Option Nat
  | [] => some acc
  | c :: cs =>
    match digit? c with
    | none => none
    | some d => extend? (acc * 10 + d) cs

/-- Reads one or more digits. -/
def read? : List Char → Option Nat
  | [] => none
  | cs => extend? 0 cs

/-- Reads a numeral that may have a plus sign, up to `most`. -/
def unsigned? (most : Nat) (cs : List Char) : Option Nat :=
  let digits := match cs with
    | '+' :: rest => rest
    | _ => cs
  match read? digits with
  | none => none
  | some n => if n ≤ most then some n else none

/-- Reads a numeral that may have either sign, from `least` to `most`. -/
def signed? (least most : Int) (cs : List Char) : Option Int :=
  let value : Option Int := match cs with
    | '+' :: rest => (read? rest).map Int.ofNat
    | '-' :: rest => (read? rest).map fun n => -Int.ofNat n
    | _ => (read? cs).map Int.ofNat
  match value with
  | none => none
  | some n => if least ≤ n ∧ n ≤ most then some n else none

/-- Reads a number that fits into 64 bits. -/
def unsigned64? (cs : List Char) : Option Nat := unsigned? (UInt64.size - 1) cs

/-- Reads a number that fits into 64 bits with its sign. -/
def signed64? (cs : List Char) : Option Int :=
  signed? (-0x8000000000000000) 0x7FFFFFFFFFFFFFFF cs

/-- Reads a number that fits into 32 bits with its sign. -/
def signed32? (cs : List Char) : Option Int := signed? (-0x80000000) 0x7FFFFFFF cs

/-- The numeral of `n`: no sign, and no leading zero unless it is `0`. -/
def text (n : Nat) : String := Nat.repr n

/-- The numeral of an integer, with a minus sign in front of a negative one. -/
def signedText : Int → String
  | .ofNat n => text n
  | .negSucc n => "-" ++ text (n + 1)

end ControlPlane.Decimal
