/-
Blank space around a text. The class is Unicode's `White_Space`, so it holds
the no-break and the ideographic space and not the zero-width ones.
-/

namespace ControlPlane.Text

/-- The code points of `White_Space`, as ranges with both ends. -/
def blankRanges : List (Nat × Nat) :=
  [(0x09, 0x0D), (0x20, 0x20), (0x85, 0x85), (0xA0, 0xA0), (0x1680, 0x1680), (0x2000, 0x200A),
   (0x2028, 0x2029), (0x202F, 0x202F), (0x205F, 0x205F), (0x3000, 0x3000)]

def isBlank (c : Char) : Bool := blankRanges.any fun (low, high) => low ≤ c.toNat && c.toNat ≤ high

/-- Leading and trailing blanks taken off; those inside stay. -/
def trimChars (cs : List Char) : List Char :=
  ((cs.dropWhile isBlank).reverse.dropWhile isBlank).reverse

def trim (s : String) : String := String.ofList (trimChars s.toList)

/-- ASCII capitals made small, everything else kept. -/
def lowerAscii (s : String) : String := String.ofList (s.toList.map Char.toLower)

/-- `s` without its leading run of `c`. -/
def trimStart (c : Char) (s : String) : String := String.ofList (s.toList.dropWhile (· == c))

/-- `s` without its trailing run of `c`. -/
def trimEnd (c : Char) (s : String) : String :=
  String.ofList (s.toList.reverse.dropWhile (· == c)).reverse

end ControlPlane.Text
