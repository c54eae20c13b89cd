/-
Hexadecimal digits, of either case.
-/

namespace ControlPlane.Hex

/-- The value of a digit. -/
def value? (c : Char) : Option Nat :=
  if '0' ≤ c ∧ c ≤ '9' then some (c.toNat - 0x30)
  else if 'A' ≤ c ∧ c ≤ 'F' then some (c.toNat - 0x37)
  else if 'a' ≤ c ∧ c ≤ 'f' then some (c.toNat - 0x57)
  else none

/-- Reads `count` digits written after a number worth `acc`. -/
def read? : (count : Nat) → (acc : Nat) → List Char → Option (Nat × List Char)
  | 0, acc, cs => some (acc, cs)
  | _ + 1, _, [] => none
  | count + 1, acc, c :: cs =>
    match value? c with
    | some d => read? count (acc * 16 + d) cs
    | none => none

/-- Reads `count` digits as the code point of a character. -/
def readChar? (count : Nat) (cs : List Char) : Option (Char × List Char) :=
  match read? count 0 cs with
  | some (n, cs) => if n.isValidChar then some (Char.ofNat n, cs) else none
  | none => none

end ControlPlane.Hex
