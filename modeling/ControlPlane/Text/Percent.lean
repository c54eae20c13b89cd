/-
Percent-encoding of one piece of a path or query. Every byte of the piece
other than an ASCII letter, digit, `-`, `_`, `.` or `~` becomes `%` and two
capital hexadecimal digits, so a written piece has none of the characters
that separate pieces, and `decode?` gets the piece back.
-/
import ControlPlane.Text.Hex
import ControlPlane.Text.Utf8

namespace ControlPlane.Percent

/-- Bytes that stand for themselves. -/
def isPlain (b : UInt8) : Bool :=
  (0x41 ≤ b && b ≤ 0x5A) || (0x61 ≤ b && b ≤ 0x7A) || (0x30 ≤ b && b ≤ 0x39)
    || b == 0x2D || b == 0x5F || b == 0x2E || b == 0x7E

/-- The capital hexadecimal digit worth `n`. -/
def hexDigit (n : Nat) : Char := Char.ofNat (if n < 10 then 0x30 + n else 0x37 + n)

def encodeByte (b : UInt8) : List Char :=
  if isPlain b then [Char.ofNat b.toNat]
  else ['%', hexDigit (b.toNat / 16), hexDigit (b.toNat % 16)]

def encodeBytes (bytes : Bytes) : List Char := bytes.flatMap encodeByte

def encode (s : String) : String := String.ofList (encodeBytes (Utf8.encode s))

/-- The bytes a written piece stands for; a `%` needs two digits after it. -/
def decodeBytes? : List Char → Option Bytes
  | [] => some []
  | '%' :: h :: l :: rest =>
    match Hex.value? h, Hex.value? l with
    | some h, some l => (decodeBytes? rest).map (UInt8.ofNat (h * 16 + l) :: ·)
    | _, _ => none
  | c :: rest =>
    if c.toNat < 0x80 ∧ isPlain (UInt8.ofNat c.toNat) then
      (decodeBytes? rest).map (UInt8.ofNat c.toNat :: ·)
    else none

def decode? (s : String) : Option String := (decodeBytes? s.toList).bind Utf8.decode

end ControlPlane.Percent
