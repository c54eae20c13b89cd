/-
Bare values of variables. A numeral with a point is told by its parts
(`Scientific.Pointed`), a whole one by its digits, its sign and its size; what is
neither is a text as it stands (`bare_eq_iff`).
-/
import ControlPlane.Proofs.Decimal
import ControlPlane.Settings.Variable

namespace ControlPlane

namespace Scientific

def Digits (cs : List Char) : Prop := ∀ c ∈ cs, isDigit c = true

def Sign (cs : List Char) : Prop := cs ∈ [[], ['+'], ['-']]

/-- Nothing, or the power of ten that a numeral is multiplied by. -/
inductive Exponent : List Char → Prop
  | absent : Exponent []
  | power {mark sign digits} : mark = 'e' ∨ mark = 'E' → Sign sign → digits ≠ [] → Digits digits →
      Exponent (mark :: (sign ++ digits))

/-- A numeral with a point, which has a digit on one side of it at least. -/
inductive Pointed : List Char → Prop
  | mk {sign whole fraction exponent} : Sign sign → Digits whole → Digits fraction →
      whole ++ fraction ≠ [] → Exponent exponent →
      Pointed (sign ++ (whole ++ '.' :: (fraction ++ exponent)))

theorem isSome_extend? {acc : Nat} {cs : List Char} :
    (Decimal.extend? acc cs).isSome ↔ Digits cs := by
  induction cs generalizing acc with
  | nil => exact ⟨fun _ => nofun, fun _ => rfl⟩
  | cons c cs ih =>
    rw [Digits, List.forall_mem_cons, isDigit, Decimal.extend?, ← Digits]
    cases Decimal.digit? c with
    | none => simp
    | some d => simpa using ih

theorem isSome_read? {cs : List Char} : (Decimal.read? cs).isSome ↔ cs ≠ [] ∧ Digits cs := by
  cases cs with
  | nil => simp [Decimal.read?]
  | cons c cs => simp [Decimal.read?, isSome_extend?]

/-- Neither a digit nor a point is a sign. -/
theorem not_sign {c : Char} (h : isDigit c = true ∨ c = '.') : c ≠ '+' ∧ c ≠ '-' := by
  constructor <;> rintro rfl <;> revert h <;> decide

/-- A sign is taken off what has none. -/
theorem takeSign_of_sign {sign cs : List Char} (h : Sign sign)
    (hcs : ∀ c ∈ cs.head?, isDigit c = true ∨ c = '.') : (takeSign (sign ++ cs)).2 = cs := by
  simp only [Sign, List.mem_cons, List.not_mem_nil, or_false] at h
  rcases h with rfl | rfl | rfl
  · cases cs with
    | nil => rfl
    | cons c cs =>
      obtain ⟨hplus, hminus⟩ := not_sign (hcs c rfl)
      simp [takeSign, hplus, hminus]
  · rfl
  · rfl

theorem exists_of_takeSign (cs : List Char) : ∃ sign, Sign sign ∧ cs = sign ++ (takeSign cs).2 := by
  unfold takeSign
  split
  · exact ⟨['-'], by simp [Sign], rfl⟩
  · exact ⟨['+'], by simp [Sign], rfl⟩
  · exact ⟨[], by simp [Sign], rfl⟩

theorem isSome_readExponent? {cs : List Char} : (readExponent? cs).isSome ↔ Exponent cs := by
  constructor
  · intro h
    cases cs with
    | nil => exact .absent
    | cons mark rest =>
      rw [readExponent?] at h
      split at h
      · next hmark =>
        obtain ⟨sign, hsign, hrest⟩ := exists_of_takeSign rest
        have hread : (Decimal.read? (takeSign rest).2).isSome := by
          cases hvalue : Decimal.read? (takeSign rest).2 <;> simp [hvalue] at h ⊢
        obtain ⟨hne, hdigits⟩ := isSome_read?.1 hread
        rw [hrest]
        exact .power hmark hsign hne hdigits
      · cases h
  · intro h
    cases h with
    | absent => rfl
    | @power mark sign digits hmark hsign hne hdigits =>
      have htake : (takeSign (sign ++ digits)).2 = digits :=
        takeSign_of_sign hsign fun c hc => .inl (hdigits c (List.mem_of_mem_head? hc))
      obtain ⟨n, hn⟩ := Option.isSome_iff_exists.1 (isSome_read?.2 ⟨hne, hdigits⟩)
      rw [readExponent?, if_pos hmark]
      simp [htake, hn]

theorem Exponent.head {cs : List Char} (h : Exponent cs) : ∀ c ∈ cs.head?, isDigit c = false := by
  cases h with
  | absent => nofun
  | power hmark =>
    intro c hc
    obtain rfl : _ = c := by simpa using hc
    rcases hmark with rfl | rfl <;> decide

theorem Exponent.no_point {cs : List Char} (h : Exponent cs) : '.' ∉ cs := by
  cases h with
  | absent => simp
  | power hmark hsign _ hdigits =>
    simp only [Sign, List.mem_cons, List.not_mem_nil, or_false] at hsign
    have hnot : '.' ∉ _ := fun hmem => absurd (hdigits '.' hmem) (by decide)
    rcases hmark with rfl | rfl <;> rcases hsign with rfl | rfl | rfl <;> simpa using hnot

/-- What is read has a sign, digits, and what else there is of a numeral. -/
theorem isSome_read?_iff {cs : List Char} : (read? cs).isSome ↔
    (Decimal.read? ((takeSign cs).2.takeWhile isDigit ++
      (takeFraction ((takeSign cs).2.dropWhile isDigit)).1)).isSome ∧
    Exponent (takeFraction ((takeSign cs).2.dropWhile isDigit)).2 := by
  rw [← isSome_readExponent?]
  unfold read?
  dsimp only
  cases Decimal.read? ((takeSign cs).2.takeWhile isDigit ++
      (takeFraction ((takeSign cs).2.dropWhile isDigit)).1) <;>
    cases readExponent? (takeFraction ((takeSign cs).2.dropWhile isDigit)).2 <;> simp

theorem pointed_iff {cs : List Char} : '.' ∈ cs ∧ (read? cs).isSome ↔ Pointed cs := by
  constructor
  · rintro ⟨hpoint, hread⟩
    obtain ⟨hdigits, hexponent⟩ := isSome_read?_iff.1 hread
    obtain ⟨hne, hdigits⟩ := isSome_read?.1 hdigits
    obtain ⟨sign, hsign, hcs⟩ := exists_of_takeSign cs
    generalize (takeSign cs).2 = body at hcs hne hdigits hexponent
    have hsplit : body.takeWhile isDigit ++ body.dropWhile isDigit = body :=
      List.takeWhile_append_dropWhile
    generalize body.takeWhile isDigit = whole at hsplit hne hdigits
    generalize body.dropWhile isDigit = rest at hsplit hne hdigits hexponent
    obtain ⟨hwhole, hfraction⟩ := List.forall_mem_append.1 hdigits
    unfold takeFraction at hne hfraction hexponent
    split at hexponent
    · next rest =>
      have hrest : rest.takeWhile isDigit ++ rest.dropWhile isDigit = rest :=
        List.takeWhile_append_dropWhile
      rw [hcs, ← hsplit, ← hrest]
      exact .mk hsign hwhole hfraction hne hexponent
    · -- A point would have to be in the sign, the digits or the exponent.
      have hnot : '.' ∉ whole := fun hmem => absurd (hwhole '.' hmem) (by decide)
      simp only [Sign, List.mem_cons, List.not_mem_nil, or_false] at hsign
      rw [hcs, ← hsplit] at hpoint
      rcases hsign with rfl | rfl | rfl <;> simp [hnot, hexponent.no_point] at hpoint
  · intro h
    obtain @⟨sign, whole, fraction, exponent, hsign, hwhole, hfraction, hne, hexponent⟩ := h
    refine ⟨by simp, isSome_read?_iff.2 ?_⟩
    have hpoint : ∀ c ∈ ('.' :: (fraction ++ exponent)).head?, isDigit c = false := by
      intro c hc
      obtain rfl : '.' = c := by simpa using hc
      decide
    have hbody : ∀ c ∈ (whole ++ '.' :: (fraction ++ exponent)).head?,
        isDigit c = true ∨ c = '.' := by
      intro c hc
      cases whole with
      | nil => exact .inr (by simpa using hc.symm)
      | cons d whole =>
        obtain rfl : d = c := by simpa using hc
        exact .inl (hwhole d (List.mem_cons_self ..))
    obtain ⟨htake, hdrop⟩ := Text.takeWhile_append hwhole hpoint
    obtain ⟨htake', hdrop'⟩ := Text.takeWhile_append hfraction hexponent.head
    rw [takeSign_of_sign hsign hbody, htake, hdrop, takeFraction, htake', hdrop']
    exact ⟨isSome_read?.2 ⟨hne, List.forall_mem_append.2 ⟨hwhole, hfraction⟩⟩, hexponent⟩

end Scientific

namespace Decimal

/-- A whole number that fits into 64 bits, with its sign or without one. -/
def Whole (cs : List Char) (n : Int) : Prop :=
  (∃ k : Nat, n = k ∧ Unsigned cs k ∧ k < UInt64.size) ∨
    Signed cs n ∧ -0x8000000000000000 ≤ n ∧ n < 0x8000000000000000

theorem Unsigned.signed {cs : List Char} {n : Nat} (h : Unsigned cs n) : Signed cs n := by
  cases h with
  | bare h => exact .bare h
  | plus h => exact .plus h

/-- A numeral has one value. -/
theorem Signed.unique {cs : List Char} {n m : Int} (h : Signed cs n) (h' : Signed cs m) :
    n = m := by
  have hread := signed?_eq_some_iff.2 ⟨h, Int.min_le_left n m, Int.le_max_left n m⟩
  have hread' := signed?_eq_some_iff.2 ⟨h', Int.min_le_right n m, Int.le_max_right n m⟩
  exact Option.some.inj (hread.symm.trans hread')

theorem Whole.signed {cs : List Char} {n : Int} (h : Whole cs n) : Signed cs n := by
  rcases h with ⟨k, rfl, hk, -⟩ | ⟨hn, -⟩
  · exact hk.signed
  · exact hn

/-- There is no point in a whole number. -/
theorem Signed.no_point {cs : List Char} {n : Int} (h : Signed cs n) : '.' ∉ cs := by
  have hdigits {digits : List Char} {k : Nat} (h : Digits digits k) : '.' ∉ digits := by
    intro hmem
    obtain ⟨d, hd, hpoint⟩ := h.mem hmem
    have hnot : ∀ d < 10, '.' ≠ Nat.digitChar d := by decide
    exact hnot d hd hpoint
  cases h with
  | bare h => exact hdigits h
  | plus h | minus h => simpa using hdigits h

end Decimal

namespace Settings.Notation

/-- What a value is that has neither brackets nor quotes. -/
inductive Bare : List Char → Tree → Prop
  | real {cs} : Scientific.Pointed cs → Bare cs .real
  | int {cs n} : Decimal.Whole cs n → Bare cs (.int n)
  | text {cs} : ¬ Scientific.Pointed cs → (∀ n, ¬ Decimal.Whole cs n) →
      Bare cs (.text (String.ofList cs))

theorem bare_of_whole {cs : List Char} {n : Int} (h : Decimal.Whole cs n) : bare cs = .int n := by
  have hpoint : ¬ ('.' ∈ cs ∧ (Scientific.read? cs).isSome) := fun hread =>
    h.signed.no_point hread.1
  rw [bare, if_neg hpoint]
  cases hunsigned : Decimal.unsigned64? cs with
  | some k =>
    have hk := (Decimal.unsigned?_eq_some_iff.1 hunsigned).1.signed
    rw [h.signed.unique hk]
  | none =>
    rcases h with ⟨k, rfl, hk, hlt⟩ | ⟨hn, hlow, hhigh⟩
    · have hread := Decimal.unsigned?_eq_some_iff.2 ⟨hk, Nat.le_sub_one_of_lt hlt⟩
      cases hread.symm.trans hunsigned
    · have hread : Decimal.signed64? cs = some n :=
        Decimal.signed?_eq_some_iff.2 ⟨hn, hlow, by omega⟩
      rw [hread]

theorem whole_or_text (cs : List Char) (hpoint : ¬ Scientific.Pointed cs) :
    (∃ n, Decimal.Whole cs n) ∨ bare cs = .text (String.ofList cs) := by
  rw [bare, if_neg (Scientific.pointed_iff.not.2 hpoint)]
  cases hunsigned : Decimal.unsigned64? cs with
  | some k =>
    obtain ⟨hk, hle⟩ := Decimal.unsigned?_eq_some_iff.1 hunsigned
    exact .inl ⟨k, .inl ⟨k, rfl, hk, Nat.lt_of_le_sub_one (by decide) hle⟩⟩
  | none =>
    cases hsigned : Decimal.signed64? cs with
    | some n =>
      obtain ⟨hn, hlow, hhigh⟩ := Decimal.signed?_eq_some_iff.1 hsigned
      exact .inl ⟨n, .inr ⟨hn, hlow, by omega⟩⟩
    | none => exact .inr rfl

/-- What is read without brackets or quotes. -/
theorem bare_eq_iff {cs : List Char} {t : Tree} : bare cs = t ↔ Bare cs t := by
  constructor
  · rintro rfl
    by_cases hpoint : Scientific.Pointed cs
    · rw [bare, if_pos (Scientific.pointed_iff.2 hpoint)]
      exact .real hpoint
    · by_cases hwhole : ∃ n, Decimal.Whole cs n
      · obtain ⟨n, hn⟩ := hwhole
        rw [bare_of_whole hn]
        exact .int hn
      · rw [(whole_or_text cs hpoint).resolve_left hwhole]
        exact .text hpoint (not_exists.1 hwhole)
  · intro h
    cases h with
    | real hpoint => rw [bare, if_pos (Scientific.pointed_iff.2 hpoint)]
    | int hn => exact bare_of_whole hn
    | text hpoint hnone => exact (whole_or_text cs hpoint).resolve_left (not_exists.2 hnone)

end Settings.Notation
end ControlPlane
