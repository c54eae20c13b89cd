/-
Code points in hexadecimal. Digits of either case, in the number that is asked for,
are read as the character they give (`readChar?_eq_some_iff`), and every character
has its digits (`exists_digits`).
-/
import ControlPlane.Text.Hex
import Mathlib.Algebra.Group.Nat.Defs

namespace ControlPlane.Hex

/-- Digits written after a number worth `acc`, and what that makes. -/
inductive Digits : Nat → List Char → Nat → Prop
  | nil {acc} : Digits acc [] acc
  | cons {acc c d cs n} : value? c = some d → Digits (acc * 16 + d) cs n → Digits acc (c :: cs) n

theorem read?_eq_some_iff {count acc n : Nat} {cs rest : List Char} :
    read? count acc cs = some (n, rest) ↔
      ∃ digits, cs = digits ++ rest ∧ digits.length = count ∧ Digits acc digits n := by
  induction count generalizing acc cs with
  | zero =>
    constructor
    · intro h
      cases h
      exact ⟨[], rfl, rfl, .nil⟩
    · rintro ⟨digits, rfl, hlength, hdigits⟩
      obtain rfl := List.eq_nil_of_length_eq_zero hlength
      cases hdigits
      rfl
  | succ count ih =>
    constructor
    · intro h
      cases cs with
      | nil => cases h
      | cons c cs =>
        rw [read?] at h
        split at h
        · next d hd =>
          obtain ⟨digits, rfl, hlength, hdigits⟩ := ih.1 h
          exact ⟨c :: digits, rfl, congrArg (· + 1) hlength, .cons hd hdigits⟩
        · cases h
    · rintro ⟨digits, rfl, hlength, hdigits⟩
      cases hdigits with
      | nil => cases hlength
      | @cons _ c d digits _ hd hdigits =>
        rw [List.cons_append, read?, hd]
        exact ih.2 ⟨digits, rfl, Nat.succ.inj hlength, hdigits⟩

theorem toNat_ofNat {n : Nat} (h : n.isValidChar) : (Char.ofNat n).toNat = n := by
  rw [Char.ofNat, dif_pos h]
  rfl

/-- The code point of a character is read from its digits. -/
theorem readChar?_eq_some_iff {count : Nat} {cs rest : List Char} {c : Char} :
    readChar? count cs = some (c, rest) ↔
      ∃ digits, cs = digits ++ rest ∧ digits.length = count ∧ Digits 0 digits c.toNat := by
  unfold readChar?
  constructor
  · intro h
    split at h
    · next n cs hread =>
      obtain ⟨digits, hcs, hlength, hdigits⟩ := read?_eq_some_iff.1 hread
      split at h
      · next hvalid =>
        cases h
        exact ⟨digits, hcs, hlength, (toNat_ofNat hvalid).symm ▸ hdigits⟩
      · cases h
    · cases h
  · intro h
    rw [read?_eq_some_iff.2 h]
    have hvalid : c.toNat.isValidChar := c.valid
    dsimp only
    rw [if_pos hvalid, Char.ofNat_toNat]

/-- A number that is not too great has so many digits. -/
theorem exists_digits (count acc : Nat) {n : Nat} (h : n < 16 ^ count) :
    ∃ digits : List Char, digits.length = count ∧ Digits acc digits (acc * 16 ^ count + n) := by
  induction count generalizing acc n with
  | zero =>
    obtain rfl : n = 0 := by simpa using h
    exact ⟨[], rfl, by simpa using Digits.nil⟩
  | succ count ih =>
    have hpos : 0 < 16 ^ count := Nat.pow_pos (by decide)
    have hfirst : n / 16 ^ count < 16 := Nat.div_lt_of_lt_mul (by rwa [← Nat.pow_succ])
    obtain ⟨digits, hlength, hdigits⟩ := ih (acc * 16 + n / 16 ^ count) (Nat.mod_lt n hpos)
    have hvalue : ∀ d < 16, value? d.digitChar = some d := by decide
    refine ⟨(n / 16 ^ count).digitChar :: digits, congrArg (· + 1) hlength,
      .cons (hvalue _ hfirst) ?_⟩
    have hsum : (acc * 16 + n / 16 ^ count) * 16 ^ count + n % 16 ^ count =
        acc * 16 ^ (count + 1) + n := by
      rw [Nat.add_mul, Nat.add_assoc, Nat.div_add_mod', Nat.mul_assoc, Nat.pow_succ']
    rwa [hsum] at hdigits

end ControlPlane.Hex
