/-
How JSON is spelled, told without a reader. A value stands between its first
byte and its last, a list or an object has its parts between commas, and there
may be space around each of them; a string is spelled piece by piece and a
numeral part by part, and either may be spelled in more ways than one. The
readers of numerals and strings take what is spelled and nothing else.
-/
import Mathlib.Tactic.Tauto
import ControlPlane.Json.Basic

namespace ControlPlane.Json

/-! ## The grammar -/

/-- Bytes that are nothing but space. -/
def Space (bytes : Bytes) : Prop := ∀ b ∈ bytes, isSpace b = true

/-- Bytes of one kind, with space around them. -/
def Spaced (P : Bytes → Prop) (bytes : Bytes) : Prop :=
  ∃ before text after, bytes = before ++ (text ++ after) ∧ Space before ∧ P text ∧ Space after

/-- Bytes of one kind and bytes of another, with a mark between them. -/
def Parted (mark : UInt8) (P Q : Bytes → Prop) (bytes : Bytes) : Prop :=
  ∃ front back, bytes = front ++ mark :: back ∧ P front ∧ Q back

namespace Numeral

/-- One digit or more, with their values. -/
structure Digits (values : List Nat) (bytes : Bytes) : Prop where
  nonempty : bytes ≠ []
  digits : ∀ b ∈ bytes, isDigit b = true
  values : bytes.map digit = values

inductive Fraction : List Nat → Bytes → Prop
  | absent : Fraction [] []
  | point {values : List Nat} {bytes : Bytes} : Digits values bytes →
      Fraction values (0x2E :: bytes)

/-- A minus sign, or a plus sign, or none. -/
inductive Sign : Bool → Bytes → Prop
  | absent : Sign false []
  | plus : Sign false [0x2B]
  | minus : Sign true [0x2D]

inductive Exponent : Option (Bool × List Nat) → Bytes → Prop
  | absent : Exponent none []
  | power {mark : UInt8} {below : Bool} {values : List Nat} {sign bytes : Bytes} :
      mark = 0x65 ∨ mark = 0x45 → Sign below sign → Digits values bytes →
      Exponent (some (below, values)) (mark :: (sign ++ bytes))

/-- The bytes spell the numeral. A zero in front is all of the whole part. -/
inductive Spells : Numeral → Bytes → Prop
  | mk {negative : Bool} {whole fraction : List Nat} {exponent : Option (Bool × List Nat)}
      {digits point power : Bytes} : Digits whole digits →
      (∀ rest, whole = 0 :: rest → rest = []) → Fraction fraction point →
      Exponent exponent power → Spells ⟨negative, whole, fraction, exponent⟩
        ((if negative then [0x2D] else []) ++ (digits ++ (point ++ power)))

end Numeral

inductive Piece.Spells : Piece → Bytes → Prop
  | plain {b : UInt8} : 0x20 ≤ b → b ≠ 0x22 → b ≠ 0x5C → Spells (.byte b) [b]
  | escape {e b : UInt8} : escaped? e = some b → Spells (.byte b) [0x5C, e]
  | unit {x y z w : UInt8} {u : Nat} : unit? x y z w = some u →
      Spells (.unit u) [0x5C, 0x75, x, y, z, w]

inductive RawText.Spells : RawText → Bytes → Prop
  | nil : Spells [] []
  | cons {piece : Piece} {text : RawText} {front rest : Bytes} :
      piece.Spells front → Spells text rest → Spells (piece :: text) (front ++ rest)

/-- A string between its quotes. -/
def Quoted (text : RawText) (bytes : Bytes) : Prop :=
  ∃ inner, bytes = 0x22 :: (inner ++ [0x22]) ∧ text.Spells inner

/-- A key, a colon, and bytes of some kind for the value. -/
def Member (key : RawText) (P : Bytes → Prop) : Bytes → Prop :=
  Parted 0x3A (Spaced (Quoted key)) (Spaced P)

mutual

/-- The bytes spell the value, from its first byte to its last. -/
def Spells : Json → Bytes → Prop
  | null, bytes => bytes = [0x6E, 0x75, 0x6C, 0x6C]
  | bool true, bytes => bytes = [0x74, 0x72, 0x75, 0x65]
  | bool false, bytes => bytes = [0x66, 0x61, 0x6C, 0x73, 0x65]
  | number n, bytes => n.Spells bytes
  | string text, bytes => Quoted text bytes
  | array items, bytes => ∃ inner, bytes = 0x5B :: (inner ++ [0x5D]) ∧ SpellItems items inner
  | object members, bytes => ∃ inner, bytes = 0x7B :: (inner ++ [0x7D]) ∧ SpellMembers members inner

/-- What stands between the brackets of an array. -/
def SpellItems : List Json → Bytes → Prop
  | [], bytes => Space bytes
  | [item], bytes => Spaced (Spells item) bytes
  | item :: item' :: items, bytes =>
    Parted 0x2C (Spaced (Spells item)) (SpellItems (item' :: items)) bytes

/-- What stands between the braces of an object. -/
def SpellMembers : List (RawText × Json) → Bytes → Prop
  | [], bytes => Space bytes
  | [(key, value)], bytes => Member key (Spells value) bytes
  | (key, value) :: member :: members, bytes =>
    Parted 0x2C (Member key (Spells value)) (SpellMembers (member :: members)) bytes

end

/-! ## Space -/

theorem skipSpace_append {before : Bytes} (h : Space before) (rest : Bytes) :
    skipSpace (before ++ rest) = skipSpace rest :=
  List.dropWhile_append_of_pos h

theorem skipSpace_cons {b : UInt8} (h : isSpace b = false) (rest : Bytes) :
    skipSpace (b :: rest) = b :: rest :=
  List.dropWhile_cons_of_neg (by simp [h])

theorem exists_of_skipSpace {bytes rest : Bytes} (h : skipSpace bytes = rest) :
    ∃ before, bytes = before ++ rest ∧ Space before := by
  subst h
  exact ⟨bytes.takeWhile isSpace, List.takeWhile_append_dropWhile.symm,
    List.all_eq_true.1 List.all_takeWhile⟩

/-! ## Numerals -/

namespace Numeral

theorem readDigits?_of_digits {values : List Nat} {bytes rest : Bytes} (h : Digits values bytes)
    (hrest : ∀ b ∈ rest.head?, isDigit b = false) :
    readDigits? (bytes ++ rest) = some (values, rest) := by
  have hend : rest.takeWhile isDigit = [] ∧ rest.dropWhile isDigit = rest := by
    cases rest with
    | nil => exact ⟨rfl, rfl⟩
    | cons b rest => simp [hrest b rfl]
  have hread : readDigits (bytes ++ rest) = (values, rest) := by
    rw [readDigits, List.takeWhile_append_of_pos h.digits, List.dropWhile_append_of_pos h.digits,
      hend.1, hend.2, List.append_nil, h.values]
  obtain ⟨b, bytes, rfl⟩ := List.exists_cons_of_ne_nil h.nonempty
  have hvalues := h.values
  subst hvalues
  rw [readDigits?, hread]
  rfl

theorem digits_of_readDigits? {values : List Nat} {bytes rest : Bytes}
    (h : readDigits? bytes = some (values, rest)) :
    ∃ front, bytes = front ++ rest ∧ Digits values front := by
  have hread : readDigits bytes = (values, rest) ∧ values ≠ [] := by
    unfold readDigits? at h
    split at h
    · cases h
    · next hne =>
      rw [Option.some.injEq] at h
      exact ⟨h, fun hnil => hne rest (hnil ▸ h)⟩
  obtain ⟨hread, hne⟩ := hread
  rw [readDigits, Prod.mk.injEq] at hread
  obtain ⟨hvalues, hrest⟩ := hread
  refine ⟨bytes.takeWhile isDigit, ?_, ?_, List.all_eq_true.1 List.all_takeWhile, hvalues⟩
  · rw [← hrest, List.takeWhile_append_dropWhile]
  · rintro hnil
    rw [hnil] at hvalues
    exact hne hvalues.symm

/-- A numeral that stands before the rest ends there. -/
def Closes (rest : Bytes) : Prop :=
  ∀ b ∈ rest.head?, isDigit b = false ∧ b ≠ 0x2E ∧ b ≠ 0x65 ∧ b ≠ 0x45

theorem closes_cons {b : UInt8} (h : b ∈ [0x20, 0x0A, 0x0D, 0x09, 0x2C, 0x5D, 0x7D])
    (rest : Bytes) : Closes (b :: rest) := by
  intro b' hb'
  cases hb'
  simp only [List.mem_cons, List.not_mem_nil, or_false] at h
  rcases h with rfl | rfl | rfl | rfl | rfl | rfl | rfl <;> decide

theorem closes_space {after rest : Bytes} (h : Space after) (hrest : Closes rest) :
    Closes (after ++ rest) := by
  cases after with
  | nil => exact hrest
  | cons b after =>
    have hb : isSpace b = true := h b (by simp)
    refine closes_cons ?_ _
    simp only [isSpace, Bool.or_eq_true, beq_iff_eq] at hb
    simp only [List.mem_cons]
    tauto

theorem readFraction?_of_fraction {values : List Nat} {bytes rest : Bytes}
    (h : Fraction values bytes) (hrest : ∀ b ∈ rest.head?, isDigit b = false ∧ b ≠ 0x2E) :
    readFraction? (bytes ++ rest) = some (values, rest) := by
  cases h with
  | absent =>
    rw [List.nil_append]
    unfold readFraction?
    split
    · exact absurd rfl (hrest 0x2E rfl).2
    · rfl
  | point hdigits => exact readDigits?_of_digits hdigits fun b hb => (hrest b hb).1

theorem fraction_of_readFraction? {values : List Nat} {bytes rest : Bytes}
    (h : readFraction? bytes = some (values, rest)) :
    ∃ front, bytes = front ++ rest ∧ Fraction values front := by
  unfold readFraction? at h
  split at h
  · obtain ⟨front, rfl, hdigits⟩ := digits_of_readDigits? h
    exact ⟨_, rfl, .point hdigits⟩
  · cases h
    exact ⟨[], rfl, .absent⟩

/-- Digits are not taken for what has another byte in front. -/
theorem Digits.ne_cons {values : List Nat} {bytes : Bytes} (h : Digits values bytes) {b : UInt8}
    (hb : isDigit b = false) (rest tail : Bytes) : bytes ++ rest ≠ b :: tail := by
  intro heq
  obtain ⟨d, bytes, rfl⟩ := List.exists_cons_of_ne_nil h.nonempty
  cases heq
  simp [h.digits b (by simp)] at hb

theorem readExponent?_of_exponent {exponent : Option (Bool × List Nat)} {bytes rest : Bytes}
    (h : Exponent exponent bytes) (hrest : Closes rest) :
    readExponent? (bytes ++ rest) = some (exponent, rest) := by
  cases h with
  | absent =>
    cases rest with
    | nil => rfl
    | cons b rest =>
      obtain ⟨-, -, hsmall, hlarge⟩ := hrest b rfl
      simp [readExponent?, hsmall, hlarge]
  | @power mark below values sign bytes hmark hsign hdigits =>
    have hread := readDigits?_of_digits hdigits fun b hb => (hrest b hb).1
    have hmark : (mark == 0x65 || mark == 0x45) = true := by simpa using hmark
    cases hsign with
    | absent =>
      have hminus := hdigits.ne_cons (b := 0x2D) rfl rest
      have hplus := hdigits.ne_cons (b := 0x2B) rfl rest
      simp [readExponent?, hmark, hread]
    | plus => simp [readExponent?, hmark, hread]
    | minus => simp [readExponent?, hmark, hread]

theorem exponent_of_readExponent? {exponent : Option (Bool × List Nat)} {bytes rest : Bytes}
    (h : readExponent? bytes = some (exponent, rest)) :
    ∃ front, bytes = front ++ rest ∧ Exponent exponent front := by
  cases bytes with
  | nil =>
    cases h
    exact ⟨[], rfl, .absent⟩
  | cons mark bytes =>
    simp only [readExponent?] at h
    split at h
    · next hmark =>
      have hmark : mark = 0x65 ∨ mark = 0x45 := by simpa using hmark
      obtain ⟨⟨values, tail⟩, hread, heq⟩ := Option.map_eq_some_iff.1 h
      cases heq
      obtain ⟨digits, hfront, hdigits⟩ := digits_of_readDigits? hread
      -- What the sign left is the digits and the rest.
      split at hfront
      · subst hfront
        exact ⟨_, rfl, .power hmark .minus hdigits⟩
      · subst hfront
        exact ⟨_, rfl, .power hmark .plus hdigits⟩
      · subst hfront
        exact ⟨_, rfl, .power hmark .absent hdigits⟩
    · cases h
      exact ⟨[], rfl, .absent⟩

theorem readWhole?_of_digits {values : List Nat} {bytes rest : Bytes} (h : Digits values bytes)
    (hleading : ∀ rest, values = 0 :: rest → rest = [])
    (hrest : ∀ b ∈ rest.head?, isDigit b = false) :
    readWhole? (bytes ++ rest) = some (values, rest) := by
  rw [readWhole?, readDigits?_of_digits h hrest]
  split
  · next heq =>
    cases heq
    cases hleading _ rfl
  · rfl

theorem digits_of_readWhole? {values : List Nat} {bytes rest : Bytes}
    (h : readWhole? bytes = some (values, rest)) : (∃ front, bytes = front ++ rest ∧
      Digits values front) ∧ ∀ rest, values = 0 :: rest → rest = [] := by
  unfold readWhole? at h
  split at h
  · cases h
  · next hne =>
    refine ⟨digits_of_readDigits? h, ?_⟩
    rintro (_ | ⟨d, values⟩) rfl
    · rfl
    · exact absurd h (hne d values rest)

theorem read?_of_spells {n : Numeral} {bytes rest : Bytes} (h : n.Spells bytes)
    (hrest : Closes rest) : read? (bytes ++ rest) = some (n, rest) := by
  obtain @⟨negative, _, _, _, digits, point, power, hwhole, hleading, hfraction, hexponent⟩ := h
  have hafter : ∀ b ∈ (power ++ rest).head?, isDigit b = false ∧ b ≠ 0x2E := by
    cases hexponent with
    | absent => exact fun b hb => ⟨(hrest b hb).1, (hrest b hb).2.1⟩
    | power hmark => rcases hmark with rfl | rfl <;> simp [isDigit]
  have hpoint : ∀ b ∈ (point ++ (power ++ rest)).head?, isDigit b = false := by
    cases hfraction with
    | absent => exact fun b hb => (hafter b hb).1
    | point => simp [isDigit]
  have hwholeRead := readWhole?_of_digits hwhole hleading hpoint
  have hfractionRead := readFraction?_of_fraction hfraction hafter
  have hexponentRead := readExponent?_of_exponent hexponent hrest
  cases negative with
  | true => simp [read?, hwholeRead, hfractionRead, hexponentRead]
  | false =>
    have hsign := hwhole.ne_cons (b := 0x2D) rfl
    simp [read?, hwholeRead, hfractionRead, hexponentRead, hsign]

theorem spells_of_read? {n : Numeral} {bytes rest : Bytes} (h : read? bytes = some (n, rest)) :
    ∃ front, bytes = front ++ rest ∧ n.Spells front := by
  simp only [read?, Option.bind_eq_bind, Option.bind_eq_some_iff, Option.pure_def,
    Option.some.injEq, Prod.exists] at h
  obtain ⟨whole, afterWhole, hwhole, fraction, afterPoint, hpoint, exponent, afterPower, hpower,
    heq⟩ := h
  cases heq
  obtain ⟨⟨digits, hfront, hdigits⟩, hleading⟩ := digits_of_readWhole? hwhole
  obtain ⟨point, rfl, hfraction⟩ := fraction_of_readFraction? hpoint
  obtain ⟨power, rfl, hexponent⟩ := exponent_of_readExponent? hpower
  -- What the sign left is the parts and the rest.
  split at hfront
  · subst hfront
    exact ⟨_, by simp, @Spells.mk true _ _ _ _ _ _ hdigits hleading hfraction hexponent⟩
  · subst hfront
    exact ⟨_, by simp, @Spells.mk false _ _ _ _ _ _ hdigits hleading hfraction hexponent⟩

/-- A numeral has a minus sign or a digit in front. -/
theorem Spells.head {n : Numeral} {bytes : Bytes} (h : n.Spells bytes) :
    ∃ b rest, bytes = b :: rest ∧ (b = 0x2D ∨ isDigit b = true) := by
  obtain @⟨negative, _, _, _, digits, point, power, hwhole, -, -, -⟩ := h
  obtain ⟨b, digits, rfl⟩ := List.exists_cons_of_ne_nil hwhole.nonempty
  cases negative with
  | true => exact ⟨_, _, rfl, .inl rfl⟩
  | false => exact ⟨_, _, rfl, .inr (hwhole.digits b (by simp))⟩

end Numeral

/-! ## Strings -/

theorem readString?_plain {b : UInt8} (hquote : b ≠ 0x22) (hbackslash : b ≠ 0x5C) (h : 0x20 ≤ b)
    (rest : Bytes) : readString? (b :: rest) =
      (readString? rest).map (Prod.map (.byte b :: ·) id) := by
  rw [readString?.eq_def]
  simp only [beq_iff_eq, hquote, hbackslash, UInt8.not_lt.2 h, if_false]
  cases readString? rest <;> rfl

theorem readString?_escape {e b : UInt8} (h : escaped? e = some b) (rest : Bytes) :
    readString? (0x5C :: e :: rest) =
      (readString? rest).map (Prod.map (.byte b :: ·) id) := by
  have hunit : e ≠ 0x75 := by
    intro he
    subst he
    cases h
  rw [readString?.eq_def]
  cases hread : readString? rest <;> simp [hunit, h, hread, Prod.map]

theorem readString?_unit {x y z w : UInt8} {u : Nat} (h : unit? x y z w = some u) (rest : Bytes) :
    readString? (0x5C :: 0x75 :: x :: y :: z :: w :: rest) =
      (readString? rest).map (Prod.map (.unit u :: ·) id) := by
  simp only [readString?, h]
  cases readString? rest <;> rfl

theorem readString?_of_piece {piece : Piece} {bytes : Bytes} (h : piece.Spells bytes)
    (rest : Bytes) : readString? (bytes ++ rest) =
      (readString? rest).map (Prod.map (piece :: ·) id) := by
  cases h with
  | plain hlow hquote hbackslash => exact readString?_plain hquote hbackslash hlow rest
  | escape hescape => exact readString?_escape hescape rest
  | unit hunit => exact readString?_unit hunit rest

/-- A string is read up to its closing quote. -/
theorem readString?_of_spells {text : RawText} {inner : Bytes} (h : text.Spells inner)
    (rest : Bytes) : readString? (inner ++ 0x22 :: rest) = some (text, rest) := by
  induction h with
  | nil =>
    rw [List.nil_append, readString?.eq_def]
    rfl
  | cons hpiece _ ih =>
    rw [List.append_assoc, readString?_of_piece hpiece, ih]
    rfl

theorem spells_of_readString? {bytes rest : Bytes} {text : RawText}
    (h : readString? bytes = some (text, rest)) :
    ∃ inner, bytes = inner ++ 0x22 :: rest ∧ text.Spells inner := by
  fun_induction readString? bytes generalizing text with
  | case2 b bytes hquote =>
    cases h
    exact ⟨[], by rw [beq_iff_eq.1 hquote, List.nil_append], .nil⟩
  | case3 b _ hbackslash x y z w bytes u tail rest' hread hunit ih =>
    cases h
    obtain ⟨inner, rfl, htail⟩ := ih hread
    exact ⟨_, by rw [beq_iff_eq.1 hbackslash]; rfl, .cons (.unit hunit) htail⟩
  | case5 b _ hbackslash e bytes _ c tail rest' hread hescape ih =>
    cases h
    obtain ⟨inner, rfl, htail⟩ := ih hread
    exact ⟨_, by rw [beq_iff_eq.1 hbackslash]; rfl, .cons (.escape hescape) htail⟩
  | case9 b bytes hquote hbackslash hlow tail rest' hread ih =>
    cases h
    obtain ⟨inner, rfl, htail⟩ := ih hread
    rw [beq_iff_eq] at hquote hbackslash
    exact ⟨_, rfl, .cons (.plain (UInt8.not_lt.1 hlow) hquote hbackslash) htail⟩
  | _ => cases h

theorem Quoted.head {text : RawText} {bytes : Bytes} (h : Quoted text bytes) :
    ∃ rest, bytes = 0x22 :: rest := by
  obtain ⟨inner, rfl, -⟩ := h
  exact ⟨_, rfl⟩

end ControlPlane.Json
