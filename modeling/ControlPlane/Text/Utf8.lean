/-
Text as bytes. `encode` writes a text in UTF-8; `scan` reads bytes back one
at a time, answering each character it completes and `none` for each stretch
that no character begins with. The two readings of foreign bytes are both
made from it: `decode` refuses them as soon as one stretch is not text,
`lossy` puts a replacement character there.
-/

namespace ControlPlane

abbrev Bytes := List UInt8

namespace Utf8

def encode (s : String) : Bytes := s.toList.flatMap String.utf8EncodeChar

/-- The bytes from `low` to `high`. -/
structure Range where
  low : UInt8
  high : UInt8
  deriving DecidableEq, Repr

def Range.contains (r : Range) (b : UInt8) : Bool := r.low ≤ b && b ≤ r.high

/-- Any byte that continues a character. -/
def Range.tail : Range := ⟨0x80, 0xBF⟩

/-- A character that has begun: where its next bytes have to lie, and the bits
of its code point read so far. With nothing wanted, none has begun. -/
structure Pending where
  wanted : List Range
  bits : Nat
  deriving DecidableEq, Repr

def Pending.idle : Pending := ⟨[], 0⟩

/-- What a first byte asks of the bytes after it. The second byte's range is
narrower after four lead bytes, which is what keeps out overlong forms,
surrogates and code points past the last one. -/
def lead (b : UInt8) : Option Pending :=
  let n := b.toNat
  if b < 0x80 then some ⟨[], n⟩
  else if b < 0xC2 then none
  else if b < 0xE0 then some ⟨[.tail], n % 32⟩
  else if b == 0xE0 then some ⟨[⟨0xA0, 0xBF⟩, .tail], 0⟩
  else if b == 0xED then some ⟨[⟨0x80, 0x9F⟩, .tail], 13⟩
  else if b < 0xF0 then some ⟨[.tail, .tail], n % 16⟩
  else if b == 0xF0 then some ⟨[⟨0x90, 0xBF⟩, .tail, .tail], 0⟩
  else if b < 0xF4 then some ⟨[.tail, .tail, .tail], n % 8⟩
  else if b == 0xF4 then some ⟨[⟨0x80, 0x8F⟩, .tail, .tail], 4⟩
  else none

/-- A byte where a character has to begin. -/
def Pending.start (b : UInt8) : List (Option Char) × Pending :=
  match lead b with
  | none => ([none], idle)
  | some ⟨[], n⟩ => ([some (Char.ofNat n)], idle)
  | some p => ([], p)

/-- The next byte. One that does not continue the character begun ends that
stretch and is read again as a first byte. -/
def Pending.step (p : Pending) (b : UInt8) : List (Option Char) × Pending :=
  match p.wanted with
  | [] => start b
  | r :: rest =>
    if r.contains b then
      let bits := p.bits * 64 + b.toNat % 64
      match rest with
      | [] => ([some (Char.ofNat bits)], idle)
      | _ => ([], ⟨rest, bits⟩)
    else
      let (out, p) := start b
      (none :: out, p)

def scanFrom (p : Pending) : Bytes → List (Option Char)
  | [] => if p.wanted.isEmpty then [] else [none]
  | b :: rest =>
    let (out, p) := p.step b
    out ++ scanFrom p rest

/-- The characters of a byte string, with `none` for each stretch that is not
the encoding of one. -/
def scan (bytes : Bytes) : List (Option Char) := scanFrom .idle bytes

/-- Reads bytes that are all text. -/
def decode (bytes : Bytes) : Option String := (scan bytes).mapM id |>.map String.ofList

/-- Reads any bytes; each stretch that is not text becomes one U+FFFD. -/
def lossy (bytes : Bytes) : String :=
  String.ofList ((scan bytes).map fun c => c.getD (Char.ofNat 0xFFFD))

end Utf8
end ControlPlane
