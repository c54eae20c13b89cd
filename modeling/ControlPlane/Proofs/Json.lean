/-
JSON is read as it was written. A value can be written just if its numerals have
digits where numerals have them and its strings hold no bytes that have to be
escaped otherwise; such a value is read back from what it is written as
(`read?_write`), whatever it holds and however deep it nests. A whole number is
written as the numeral that stands for it (`value?_ofNat`).
-/
import ControlPlane.Json.Decoder
import ControlPlane.Proofs.Decimal
import ControlPlane.Proofs.Reader

namespace ControlPlane.Json

/-! ## Numerals -/

namespace Numeral

/-- A numeral that can be written. -/
structure Regular (n : Numeral) : Prop where
  whole : n.whole ≠ []
  /-- A zero in front is all of the whole part. -/
  leading : ∀ rest, n.whole = 0 :: rest → rest = []
  digits : ∀ d ∈ n.whole ++ n.fraction, d < 10
  exponent : ∀ below digits, n.exponent = some (below, digits) →
    digits ≠ [] ∧ ∀ d ∈ digits, d < 10

theorem digit_ofNat {d : Nat} (h : d < 10) :
    isDigit (UInt8.ofNat (0x30 + d)) = true ∧ digit (UInt8.ofNat (0x30 + d)) = d := by
  have hall : ∀ d < 10, isDigit (UInt8.ofNat (0x30 + d)) = true ∧
      digit (UInt8.ofNat (0x30 + d)) = d := by decide
  exact hall d h

theorem writeDigits_digits {values : List Nat} (hne : values ≠ []) (h : ∀ d ∈ values, d < 10) :
    Digits values (writeDigits values) where
  nonempty := by simpa [writeDigits] using hne
  digits := by
    intro b hb
    obtain ⟨d, hd, rfl⟩ := List.mem_map.1 hb
    exact (digit_ofNat (h d hd)).1
  values := by
    rw [writeDigits, List.map_map]
    exact (List.map_congr_left fun d hd => (digit_ofNat (h d hd)).2).trans (List.map_id values)

def writeFraction (fraction : List Nat) : Bytes :=
  if fraction.isEmpty then [] else 0x2E :: writeDigits fraction

def writeExponent : Option (Bool × List Nat) → Bytes
  | none => []
  | some (below, digits) => 0x65 :: (if below then [0x2D] else []) ++ writeDigits digits

theorem write_eq (n : Numeral) : n.write = (if n.negative then [0x2D] else []) ++
    (writeDigits n.whole ++ (writeFraction n.fraction ++ writeExponent n.exponent)) := by
  simp only [write, writeFraction, List.append_assoc]
  rfl

theorem writeFraction_spells {fraction : List Nat} (h : ∀ d ∈ fraction, d < 10) :
    Fraction fraction (writeFraction fraction) := by
  cases fraction with
  | nil => exact .absent
  | cons d fraction => exact .point (writeDigits_digits (by simp) h)

theorem writeExponent_spells {exponent : Option (Bool × List Nat)}
    (h : ∀ below digits, exponent = some (below, digits) → digits ≠ [] ∧ ∀ d ∈ digits, d < 10) :
    Exponent exponent (writeExponent exponent) := by
  match exponent with
  | none => exact .absent
  | some (below, digits) =>
    obtain ⟨hne, hdigits⟩ := h below digits rfl
    refine .power (.inl rfl) ?_ (writeDigits_digits hne hdigits)
    cases below with
    | true => exact .minus
    | false => exact .absent

/-- A numeral is spelled as it is written. -/
theorem write_spells {n : Numeral} (h : n.Regular) : n.Spells n.write := by
  have hwhole := writeDigits_digits h.whole fun d hd => h.digits d (List.mem_append_left _ hd)
  have hfraction := writeFraction_spells fun d hd => h.digits d (List.mem_append_right _ hd)
  have hspells : Spells ⟨n.negative, n.whole, n.fraction, n.exponent⟩ _ :=
    .mk hwhole h.leading hfraction (writeExponent_spells h.exponent)
  rw [write_eq]
  exact hspells

/-! ### Whole numbers -/

theorem digitsValue_concat (digits : List Nat) (d : Nat) :
    digitsValue (digits ++ [d]) = 10 * digitsValue digits + d := by
  simp [digitsValue, Nat.mul_comm]

/-- The digits of a number, as a numeral has them. -/
def places (cs : List Char) : List Nat := cs.map fun c => c.toNat - '0'.toNat

theorem places_concat (cs : List Char) {d : Nat} (h : d < 10) :
    places (cs ++ [d.digitChar]) = places cs ++ [d] := by
  simp [places, Nat.toNat_digitChar_of_lt_ten h]

theorem digitsValue_places {cs : List Char} {n : Nat} (h : Decimal.Written cs n) :
    digitsValue (places cs) = n := by
  induction h with
  | digit hd =>
    rw [← List.nil_append [_], places_concat [] hd]
    simp [places, digitsValue]
  | more _ _ hd ih => rw [places_concat _ hd, digitsValue_concat, ih]

theorem places_head {cs : List Char} {n : Nat} (h : Decimal.Written cs n) :
    ∃ d rest, places cs = d :: rest ∧ (d = 0 → n = 0 ∧ rest = []) := by
  induction h with
  | @digit d hd => exact ⟨d, [], places_concat [] hd, fun h => ⟨h, rfl⟩⟩
  | @more cs n d _ hn hd ih =>
    obtain ⟨first, rest, hplaces, hzero⟩ := ih
    refine ⟨first, rest ++ [d], by rw [places_concat cs hd, hplaces, List.cons_append], ?_⟩
    intro hfirst
    exact absurd (hzero hfirst).1 hn.ne'

theorem ofNat_regular (n : Nat) : (ofNat n).Regular := by
  have hwritten := Decimal.written_toDigits n
  obtain ⟨d, rest, hplaces, hzero⟩ := places_head hwritten
  have hwhole : (ofNat n).whole = d :: rest := hplaces
  refine
    { whole := by simp [hwhole]
      leading := fun rest' h => ?_
      digits := ?_
      exponent := nofun }
  · rw [hwhole] at h
    cases h
    exact (hzero rfl).2
  · intro d hd
    obtain ⟨c, hc, rfl⟩ : ∃ c ∈ Nat.toDigits 10 n, c.toNat - '0'.toNat = d := by
      simpa [ofNat] using hd
    obtain ⟨k, hk, rfl⟩ := hwritten.digits.mem hc
    rwa [Nat.toNat_digitChar_of_lt_ten hk, show '0'.toNat = 48 from rfl, Nat.add_sub_cancel_left]

theorem absorb_of_le {digits : List Nat} {significand : Nat}
    (h : digits.foldl (fun n d => n * 10 + d) significand ≤ most) :
    absorb significand digits = (digits.foldl (fun n d => n * 10 + d) significand, []) := by
  have hgrow (digits : List Nat) (n : Nat) : n ≤ digits.foldl (fun n d => n * 10 + d) n := by
    induction digits generalizing n with
    | nil => exact Nat.le_refl n
    | cons d digits ih => exact Nat.le_trans (by omega) (ih (n * 10 + d))
  induction digits generalizing significand with
  | nil => rfl
  | cons d digits ih =>
    rw [absorb, if_pos (Nat.le_trans (hgrow digits _) h)]
    exact ih h

/-- A number of 64 bits is what its numeral stands for. -/
theorem value?_ofNat {n : Nat} (h : n < UInt64.size) : (ofNat n).value? = some (.natural n) := by
  have hvalue : digitsValue (ofNat n).whole = n := digitsValue_places (Decimal.written_toDigits n)
  have habsorb : absorb 0 (ofNat n).whole = (n, []) := by
    have hle : digitsValue (ofNat n).whole ≤ most := by
      rw [hvalue]
      exact Nat.le_sub_one_of_lt h
    rw [absorb_of_le hle]
    exact congrArg (·, []) hvalue
  rw [value?, habsorb]
  simp [ofNat]

end Numeral

theorem uint32?_ofNat (n : UInt32) : uint32? (number (.ofNat n.toNat)) = some n := by
  have hsize : UInt32.size < UInt64.size := by decide
  have hlt : n.toNat < UInt32.size := n.toNat_lt
  rw [uint32?, Numeral.value?_ofNat (Nat.lt_trans hlt hsize)]
  simp [hlt]

/-! ## Strings -/

/-- A piece that can be written. -/
def Piece.Regular : Piece → Prop
  | unit u => u < 0x10000
  | byte b => 0x20 ≤ b ∨ b ∈ [0x08, 0x09, 0x0A, 0x0C, 0x0D]

instance (piece : Piece) : Decidable piece.Regular := by
  cases piece <;> unfold Piece.Regular <;> infer_instance

theorem hexValue?_hexDigit {n : Nat} (h : n < 16) : hexValue? (hexDigit n) = some n := by
  have hall : ∀ n < 16, hexValue? (hexDigit n) = some n := by decide
  exact hall n h

theorem writePiece_spells {piece : Piece} (h : piece.Regular) :
    piece.Spells (writePiece piece) := by
  cases piece with
  | unit u =>
    refine .unit ?_
    have hvalue (n : Nat) : hexValue? (hexDigit (n % 16)) = some (n % 16) :=
      hexValue?_hexDigit (Nat.mod_lt n (by decide))
    have hu : u < 0x10000 := h
    simp only [unit?, hvalue, Option.bind_eq_bind, Option.bind_some, Option.pure_def]
    congr 1
    omega
  | byte b =>
    simp only [writePiece]
    split
    case h_8 hquote hbackslash hbackspace hfeed hline hreturn htab =>
      have hhigh : 0x20 ≤ b := h.resolve_right (by simp_all)
      exact .plain hhigh hquote hbackslash
    all_goals exact .escape rfl

theorem writeString_quoted {text : RawText} (h : ∀ piece ∈ text, piece.Regular) :
    Quoted text (writeString text) := by
  refine ⟨text.flatMap writePiece, rfl, ?_⟩
  induction text with
  | nil => exact .nil
  | cons piece text ih =>
    obtain ⟨hpiece, htext⟩ := List.forall_mem_cons.1 h
    rw [List.flatMap_cons]
    exact .cons (writePiece_spells hpiece) (ih htext)

/-! ## Values -/

mutual

/-- A value that can be written. -/
def Regular : Json → Prop
  | null | bool _ => True
  | number n => n.Regular
  | string text => ∀ piece ∈ text, piece.Regular
  | array items => ItemsRegular items
  | object members => MembersRegular members

def ItemsRegular : List Json → Prop
  | [] => True
  | item :: rest => Regular item ∧ ItemsRegular rest

def MembersRegular : List (RawText × Json) → Prop
  | [] => True
  | (key, value) :: rest =>
    (∀ piece ∈ key, piece.Regular) ∧ Regular value ∧ MembersRegular rest

end

theorem spaced_of {P : Bytes → Prop} {bytes : Bytes} (h : P bytes) : Spaced P bytes :=
  ⟨[], bytes, [], by simp, nofun, h, nofun⟩

theorem member_of {key : RawText} {P : Bytes → Prop} {bytes : Bytes}
    (hkey : ∀ piece ∈ key, piece.Regular) (h : P bytes) :
    Member key P (writeString key ++ 0x3A :: bytes) :=
  ⟨_, _, rfl, spaced_of (writeString_quoted hkey), spaced_of h⟩

mutual

/-- A value is spelled as it is written. -/
theorem write_spells : ∀ {j : Json}, j.Regular → j.Spells j.write
  | null, _ | bool true, _ | bool false, _ => by rw [Spells]; rfl
  | number n, h => by
    rw [Regular] at h
    rw [Spells]
    exact n.write_spells h
  | string text, h => by
    rw [Regular] at h
    rw [Spells]
    exact writeString_quoted h
  | array items, h => by
    rw [Regular] at h
    obtain ⟨inner, hwrite, hinner⟩ := writeItems_spells h
    rw [Spells, write, hwrite]
    exact ⟨inner, rfl, hinner⟩
  | object members, h => by
    rw [Regular] at h
    obtain ⟨inner, hwrite, hinner⟩ := writeMembers_spells h
    rw [Spells, write, hwrite]
    exact ⟨inner, rfl, hinner⟩

theorem writeItems_spells : ∀ {items : List Json}, ItemsRegular items →
    ∃ inner, writeItems items = inner ++ [0x5D] ∧ SpellItems items inner
  | [], _ => ⟨[], rfl, by rw [SpellItems]; exact nofun⟩
  | [item], h => by
    rw [ItemsRegular] at h
    refine ⟨item.write, by rw [writeItems], ?_⟩
    rw [SpellItems]
    exact spaced_of (write_spells h.1)
  | item :: item' :: items, h => by
    rw [ItemsRegular] at h
    obtain ⟨inner, hwrite, hinner⟩ := writeItems_spells h.2
    refine ⟨item.write ++ 0x2C :: inner, ?_, ?_⟩
    · rw [writeItems, hwrite, List.append_assoc, List.cons_append]
      exact List.cons_ne_nil item' items
    · exact spellItems_cons (List.cons_ne_nil item' items) (spaced_of (write_spells h.1)) hinner

theorem writeMembers_spells : ∀ {members : List (RawText × Json)}, MembersRegular members →
    ∃ inner, writeMembers members = inner ++ [0x7D] ∧ SpellMembers members inner
  | [], _ => ⟨[], rfl, by rw [SpellMembers]; exact nofun⟩
  | [(key, value)], h => by
    rw [MembersRegular] at h
    refine ⟨writeString key ++ 0x3A :: value.write, by simp [writeMembers], ?_⟩
    rw [SpellMembers]
    exact member_of h.1 (write_spells h.2.1)
  | (key, value) :: member :: members, h => by
    rw [MembersRegular] at h
    obtain ⟨inner, hwrite, hinner⟩ := writeMembers_spells h.2.2
    refine ⟨writeString key ++ 0x3A :: value.write ++ 0x2C :: inner, ?_, ?_⟩
    · rw [writeMembers, hwrite, List.append_assoc, List.append_assoc, List.append_assoc]
      · simp
      · simp
    · exact spellMembers_cons (List.cons_ne_nil member members)
        (member_of h.1 (write_spells h.2.1)) hinner

end

/-- **What is written is read back.** -/
theorem read?_write {j : Json} (h : j.Regular) : read? j.write = some j :=
  read?_eq_some_iff.2 (spaced_of (write_spells h))

end ControlPlane.Json
