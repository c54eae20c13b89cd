/-
JSON numbers as they are written, and the numbers they stand for. A numeral
without fraction or exponent is a whole number if it fits into 64 bits, signed
when it is below zero; every other numeral stands for a double. The double is
scaled from as many leading digits as fit into 64 bits, so it need not be the
one nearest to the numeral, and one beyond the greatest double is no number.
-/
import ControlPlane.Double
import ControlPlane.Text.Utf8

namespace ControlPlane.Json

/-- The digits of a numeral, each from 0 to 9. An absent part has no digits. -/
structure Numeral where
  negative : Bool := false
  whole : List Nat
  fraction : List Nat := []
  exponent : Option (Bool × List Nat) := none
  deriving DecidableEq, Repr

/-- What a numeral stands for. -/
inductive Number
  | natural (n : Nat)
  | negative (n : Int)
  | real (d : Double)
  deriving DecidableEq, Repr

namespace Numeral

/-! ## Value -/

/-- The greatest significand kept. -/
def most : Nat := UInt64.size - 1

/-- Takes digits up into a significand while it stays within 64 bits. -/
def absorb (significand : Nat) : List Nat → Nat × List Nat
  | [] => (significand, [])
  | d :: rest =>
    if significand * 10 + d ≤ most then absorb (significand * 10 + d) rest
    else (significand, d :: rest)

def digitsValue (digits : List Nat) : Nat := digits.foldl (fun n d => n * 10 + d) 0

/-- `m` divided by ten to the `k`, by powers of ten that are doubles themselves.
The last of them comes after `fuel` of the greatest. -/
def tenths : (fuel : Nat) → (k : Nat) → (m : Nat) → Nat
  | 0, _, m => m
  | fuel + 1, k, m =>
    if k ≤ 308 then Double.quotient m (Double.tenTo k)
    else if m = 0 then 0
    else tenths fuel (k - 308) (Double.quotient m (Double.tenTo 308))

/-- `significand` times ten to the `e`, as a pattern. -/
def scale? (significand : Nat) (e : Int) : Option Nat :=
  let m := Double.nearest significand 1
  if 308 < e then (if m = 0 then some 0 else none)
  else if 0 ≤ e then
    let m := Double.product m (Double.tenTo e.toNat)
    if m < Double.infinite then some m else none
  else some (tenths ((-e).toNat / 308 + 1) (-e).toNat m)

/-- The exponent that is written out. -/
def exponentValue (n : Numeral) : Int :=
  match n.exponent with
  | none => 0
  | some (below, digits) => if below then -digitsValue digits else digitsValue digits

/-- The double the numeral is scaled to. Digits of the whole part that are
dropped still count for the place of the point. -/
def double? (n : Numeral) : Option Double :=
  let (significand, dropped) := absorb 0 n.whole
  let (significand, ignored) := absorb significand n.fraction
  let places := n.fraction.length - ignored.length
  (scale? significand (dropped.length - places + n.exponentValue)).map
    (Double.ofMagnitude n.negative)

def value? (n : Numeral) : Option Number :=
  let (significand, dropped) := absorb 0 n.whole
  if n.fraction.isEmpty ∧ n.exponent.isNone ∧ dropped.isEmpty then
    if ¬ n.negative then some (.natural significand)
    else if 0 < significand ∧ significand ≤ 0x8000000000000000 then some (.negative (-significand))
    else n.double?.map .real
  else n.double?.map .real

/-- The numeral of a whole number. -/
def ofNat (n : Nat) : Numeral :=
  { whole := (Nat.toDigits 10 n).map fun c => c.toNat - '0'.toNat }

/-! ## Spelling -/

def isDigit (b : UInt8) : Bool := 0x30 ≤ b && b ≤ 0x39

def digit (b : UInt8) : Nat := b.toNat - 0x30

/-- The digits in front. -/
def readDigits (bytes : Bytes) : List Nat × Bytes :=
  ((bytes.takeWhile isDigit).map digit, bytes.dropWhile isDigit)

/-- One or more digits. -/
def readDigits? (bytes : Bytes) : Option (List Nat × Bytes) :=
  match readDigits bytes with
  | ([], _) => none
  | r => some r

/-- A whole part: digits of which the first is not zero, unless it is alone. -/
def readWhole? (bytes : Bytes) : Option (List Nat × Bytes) :=
  match readDigits? bytes with
  | some (0 :: _ :: _, _) => none
  | r => r

def readFraction? : Bytes → Option (List Nat × Bytes)
  | 0x2E :: rest => readDigits? rest
  | bytes => some ([], bytes)

def readExponent? : Bytes → Option (Option (Bool × List Nat) × Bytes)
  | b :: rest =>
    if b == 0x65 || b == 0x45 then
      let (below, digits) := match rest with
        | 0x2D :: digits => (true, digits)
        | 0x2B :: digits => (false, digits)
        | digits => (false, digits)
      (readDigits? digits).map fun (ds, rest) => (some (below, ds), rest)
    else some (none, b :: rest)
  | [] => some (none, [])

/-- Reads the numeral in front. -/
def read? (bytes : Bytes) : Option (Numeral × Bytes) := do
  let (negative, bytes) := match bytes with
    | 0x2D :: rest => (true, rest)
    | _ => (false, bytes)
  let (whole, bytes) ← readWhole? bytes
  let (fraction, bytes) ← readFraction? bytes
  let (exponent, bytes) ← readExponent? bytes
  pure ({ negative, whole, fraction, exponent }, bytes)

def writeDigits (digits : List Nat) : Bytes := digits.map fun d => UInt8.ofNat (0x30 + d)

def write (n : Numeral) : Bytes :=
  (if n.negative then [0x2D] else []) ++ writeDigits n.whole
    ++ (if n.fraction.isEmpty then [] else 0x2E :: writeDigits n.fraction)
    ++ match n.exponent with
      | none => []
      | some (below, digits) => 0x65 :: (if below then [0x2D] else []) ++ writeDigits digits

end Numeral
end ControlPlane.Json
