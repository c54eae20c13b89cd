/-
Numerals. A number is written in one way and read from many: with zeros in
front, with a sign and, where blanks are taken off, with blanks around it. What
reads numerals takes these spellings and no others, however long they are
(`unsigned?_eq_some_iff`, `signed?_eq_some_iff`), and a number too great is
found to be so and not cut off.
-/
import Mathlib.Data.List.Induction
import Mathlib.Data.List.TakeWhile
import ControlPlane.Text.Blank
import ControlPlane.Text.Decimal

namespace ControlPlane

/-! ## Writing -/

/-- The digits that a number is written with: its own, if it is a digit, else
those of its tenth and one more. So none of them is a leading zero. -/
inductive Decimal.Written : List Char → Nat → Prop
  | digit {d} : d < 10 → Written [d.digitChar] d
  | more {digits n d} : Written digits n → 0 < n → d < 10 →
      Written (digits ++ [d.digitChar]) (10 * n + d)

namespace Decimal

theorem written_toDigits (n : Nat) : Written (Nat.toDigits 10 n) n := by
  induction n using Nat.strongRecOn with
  | ind n ih =>
    by_cases hn : n < 10
    · rw [Nat.toDigits_of_lt_base hn]
      exact .digit hn
    · have htenth : Written (Nat.toDigits 10 (n / 10)) (n / 10) := ih _ (by omega)
      have hmore := htenth.more (by omega) (Nat.mod_lt n (by decide : 0 < 10))
      rw [Nat.div_add_mod] at hmore
      rwa [Nat.toDigits_of_base_le (by decide) (by omega)]

/-- There is one way to write a number. -/
theorem Written.digits_eq {digits : List Char} {n : Nat} (h : Written digits n) :
    digits = Nat.toDigits 10 n := by
  induction h with
  | digit hd => exact (Nat.toDigits_of_lt_base hd).symm
  | more _ hn hd ih =>
    rw [ih, ← Nat.toDigits_of_lt_base hd]
    exact Nat.toDigits_append_toDigits (by decide) hn hd

theorem Written.inj {digits : List Char} {n n' : Nat} (h : Written digits n)
    (h' : Written digits n') : n = n' := by
  have hdigits := congrArg (Nat.ofDigitChars 10 · 0) (h.digits_eq.symm.trans h'.digits_eq)
  simpa only [Nat.ofDigitChars_ten_toDigits] using hdigits

theorem text_written (n : Nat) : Written (text n).toList n := by
  rw [text, Nat.toList_repr]
  exact written_toDigits n

/-! ## Reading -/

/-- One or more ASCII digits, as many and with as many zeros in front as there
may be. -/
inductive Digits : List Char → Nat → Prop
  | digit {d} : d < 10 → Digits [d.digitChar] d
  | more {digits n d} : Digits digits n → d < 10 → Digits (digits ++ [d.digitChar]) (10 * n + d)

theorem Written.digits {digits : List Char} {n : Nat} (h : Written digits n) : Digits digits n := by
  induction h with
  | digit hd => exact .digit hd
  | more _ _ hd ih => exact ih.more hd

theorem digit?_eq_some_iff {c : Char} {d : Nat} : digit? c = some d ↔ d < 10 ∧ c = d.digitChar := by
  constructor
  · intro h
    simp only [digit?] at h
    split_ifs at h with hc
    obtain ⟨hlow, hhigh⟩ : 48 ≤ c.toNat ∧ c.toNat ≤ 57 := hc
    obtain rfl : c.toNat - 48 = d := Option.some.inj h
    have hd : c.toNat - 48 < 10 := by omega
    refine ⟨hd, Char.toNat_inj.1 ?_⟩
    rw [Nat.toNat_digitChar_of_lt_ten hd]
    omega
  · intro ⟨hd, hc⟩
    subst hc
    have hall : ∀ d < 10, digit? d.digitChar = some d := by decide
    exact hall d hd

theorem extend?_concat (acc : Nat) (cs : List Char) (c : Char) :
    extend? acc (cs ++ [c]) =
      (extend? acc cs).bind fun n => (digit? c).map fun d => 10 * n + d := by
  induction cs generalizing acc with
  | nil => cases hc : digit? c <;> simp [extend?, hc, Nat.mul_comm]
  | cons c' cs ih => cases hc : digit? c' <;> simp [extend?, hc, ih]

theorem Digits.head {cs : List Char} {n : Nat} (h : Digits cs n) :
    ∃ d rest, d < 10 ∧ cs = Nat.digitChar d :: rest := by
  induction h with
  | digit hd => exact ⟨_, [], hd, rfl⟩
  | more _ _ ih =>
    obtain ⟨d, rest, hd, rfl⟩ := ih
    exact ⟨d, _, hd, rfl⟩

theorem Digits.mem {cs : List Char} {n : Nat} (h : Digits cs n) {c : Char} (hc : c ∈ cs) :
    ∃ d < 10, c = Nat.digitChar d := by
  induction h with
  | digit hd => exact ⟨_, hd, List.mem_singleton.1 hc⟩
  | more _ hd ih =>
    rcases List.mem_append.1 hc with hc | hc
    · exact ih hc
    · exact ⟨_, hd, List.mem_singleton.1 hc⟩

theorem read?_eq_extend? {cs : List Char} (h : cs ≠ []) : read? cs = extend? 0 cs := by
  cases cs with
  | nil => exact absurd rfl h
  | cons => rfl

theorem read?_eq_some_iff {cs : List Char} {n : Nat} : read? cs = some n ↔ Digits cs n := by
  constructor
  · intro h
    induction cs using List.reverseRecOn generalizing n with
    | nil => cases h
    | append_singleton cs c ih =>
      rw [read?_eq_extend? (by simp), extend?_concat] at h
      obtain ⟨k, hk, hlast⟩ := Option.bind_eq_some_iff.1 h
      obtain ⟨d, hc, rfl⟩ := Option.map_eq_some_iff.1 hlast
      obtain ⟨hd, rfl⟩ := digit?_eq_some_iff.1 hc
      cases cs with
      | nil =>
        obtain rfl : 0 = k := Option.some.inj hk
        simpa using Digits.digit hd
      | cons c cs => exact (ih hk).more hd
  · intro h
    induction h with
    | digit hd =>
      rw [read?_eq_extend? (by simp), extend?, digit?_eq_some_iff.2 ⟨hd, rfl⟩]
      simp [extend?]
    | more hdigits hd ih =>
      obtain ⟨d, rest, -, rfl⟩ := hdigits.head
      rw [read?_eq_extend? (by simp)] at ih ⊢
      rw [extend?_concat, ih, digit?_eq_some_iff.2 ⟨hd, rfl⟩]
      rfl

/-! ### Signs -/

/-- Digits that a plus sign may stand in front of. -/
inductive Unsigned : List Char → Nat → Prop
  | bare {digits n} : Digits digits n → Unsigned digits n
  | plus {digits n} : Digits digits n → Unsigned ('+' :: digits) n

/-- Digits that a sign may stand in front of. -/
inductive Signed : List Char → Int → Prop
  | bare {digits n} : Digits digits n → Signed digits n
  | plus {digits n} : Digits digits n → Signed ('+' :: digits) n
  | minus {digits n} : Digits digits n → Signed ('-' :: digits) (-n)

/-- No digit is a sign. -/
theorem Digits.head_ne {sign : Char} {cs : List Char} {n : Nat} (h : Digits cs n)
    (hsign : sign = '+' ∨ sign = '-') (rest : List Char) : cs ≠ sign :: rest := by
  obtain ⟨d, digits, hd, rfl⟩ := h.head
  have hall : ∀ d < 10, Nat.digitChar d ≠ '+' ∧ Nat.digitChar d ≠ '-' := by decide
  rcases hsign with rfl | rfl <;> simp [hall d hd]

theorem unsigned?_eq_some_iff {most : Nat} {cs : List Char} {n : Nat} :
    unsigned? most cs = some n ↔ Unsigned cs n ∧ n ≤ most := by
  unfold unsigned?
  split
  · next digits =>
    have hread : read? digits = some n ↔ Unsigned ('+' :: digits) n := by
      refine read?_eq_some_iff.trans ⟨.plus, fun h => ?_⟩
      cases h with
      | bare h => exact absurd rfl (h.head_ne (.inl rfl) digits)
      | plus h => exact h
    rw [← hread]
    dsimp only
    cases read? digits <;> grind
  · next hplus =>
    have hread : read? cs = some n ↔ Unsigned cs n := by
      refine read?_eq_some_iff.trans ⟨.bare, fun h => ?_⟩
      cases h with
      | bare h => exact h
      | plus h => exact absurd rfl (hplus _)
    rw [← hread]
    dsimp only
    cases read? cs <;> grind

theorem signed?_eq_some_iff {least most : Int} {cs : List Char} {n : Int} :
    signed? least most cs = some n ↔ Signed cs n ∧ least ≤ n ∧ n ≤ most := by
  have hvalue (sign : Nat → Int) (digits : List Char) : (read? digits).map sign = some n ↔
      ∃ k, Digits digits k ∧ sign k = n := by
    simp [Option.map_eq_some_iff, read?_eq_some_iff]
  unfold signed?
  split
  · next digits =>
    have hread : (read? digits).map Int.ofNat = some n ↔ Signed ('+' :: digits) n := by
      refine (hvalue _ _).trans ⟨fun ⟨k, h, hk⟩ => hk ▸ .plus h, fun h => ?_⟩
      cases h with
      | bare h => exact absurd rfl (h.head_ne (.inl rfl) digits)
      | plus h => exact ⟨_, h, rfl⟩
    rw [← hread]
    cases (read? digits).map Int.ofNat <;> grind
  · next digits =>
    have hread : ((read? digits).map fun k => -Int.ofNat k) = some n ↔
        Signed ('-' :: digits) n := by
      refine (hvalue _ _).trans ⟨fun ⟨k, h, hk⟩ => hk ▸ .minus h, fun h => ?_⟩
      cases h with
      | bare h => exact absurd rfl (h.head_ne (.inr rfl) digits)
      | minus h => exact ⟨_, h, rfl⟩
    rw [← hread]
    cases (read? digits).map fun k => -Int.ofNat k <;> grind
  · next hplus hminus =>
    have hread : (read? cs).map Int.ofNat = some n ↔ Signed cs n := by
      refine (hvalue _ _).trans ⟨fun ⟨k, h, hk⟩ => hk ▸ .bare h, fun h => ?_⟩
      cases h with
      | bare h => exact ⟨_, h, rfl⟩
      | plus h => exact absurd rfl (hplus _)
      | minus h => exact absurd rfl (hminus _)
    rw [← hread]
    cases (read? cs).map Int.ofNat <;> grind

end Decimal

/-! ## Blanks -/

namespace Text

/-- A text with blanks around it. -/
def Padded (core cs : List Char) : Prop :=
  ∃ before after, cs = before ++ core ++ after ∧
    (∀ c ∈ before, isBlank c = true) ∧ ∀ c ∈ after, isBlank c = true

theorem padded_trimChars (cs : List Char) : Padded (trimChars cs) cs := by
  have hsplit (cs : List Char) : cs.takeWhile isBlank ++ cs.dropWhile isBlank = cs :=
    List.takeWhile_append_dropWhile
  refine ⟨cs.takeWhile isBlank, ((cs.dropWhile isBlank).reverse.takeWhile isBlank).reverse, ?_,
    fun c hc => List.mem_takeWhile_imp hc,
    fun c hc => List.mem_takeWhile_imp (List.mem_reverse.1 hc)⟩
  rw [trimChars, List.append_assoc, ← List.reverse_append, hsplit, List.reverse_reverse, hsplit]

/-- Characters of a kind are taken up to one of another. -/
theorem takeWhile_append {p : Char → Bool} {before rest : List Char}
    (hbefore : ∀ c ∈ before, p c = true) (hrest : ∀ c ∈ rest.head?, p c = false) :
    (before ++ rest).takeWhile p = before ∧ (before ++ rest).dropWhile p = rest := by
  rw [List.takeWhile_append_of_pos hbefore, List.dropWhile_append_of_pos hbefore]
  cases rest with
  | nil => simp
  | cons c rest =>
    have hc : p c = false := hrest c rfl
    simp [hc]

/-- What has no blanks is all that is left when those around it are taken off. -/
theorem Padded.trimChars_eq {core cs : List Char} (h : Padded core cs) (hne : core ≠ [])
    (hcore : ∀ c ∈ core, isBlank c = false) : trimChars cs = core := by
  obtain ⟨before, after, rfl, hbefore, hafter⟩ := h
  have hfront : (before ++ (core ++ after)).dropWhile isBlank = core ++ after := by
    obtain ⟨c, core, rfl⟩ := List.exists_cons_of_ne_nil hne
    exact (takeWhile_append hbefore (by simpa using hcore c (by simp))).2
  have hback : (after.reverse ++ core.reverse).dropWhile isBlank = core.reverse := by
    refine (takeWhile_append (by simpa using hafter) fun c hc => hcore c ?_).2
    exact List.mem_reverse.1 (List.mem_of_mem_head? hc)
  rw [trimChars, List.append_assoc, hfront, List.reverse_append, hback, List.reverse_reverse]

/-- What is left of a text when the blanks around it are taken off, if that is of
a kind that has no blanks. -/
theorem exists_padded_iff {P : List Char → Prop} {cs : List Char}
    (h : ∀ core, P core → core ≠ [] ∧ ∀ c ∈ core, isBlank c = false) :
    (∃ core, Padded core cs ∧ P core) ↔ P (trimChars cs) := by
  constructor
  · intro ⟨core, hpadded, hcore⟩
    obtain ⟨hne, hblank⟩ := h core hcore
    rwa [hpadded.trimChars_eq hne hblank]
  · intro hcore
    exact ⟨_, padded_trimChars cs, hcore⟩

end Text

namespace Decimal

theorem Digits.not_blank {cs : List Char} {n : Nat} (h : Digits cs n) :
    cs ≠ [] ∧ ∀ c ∈ cs, Text.isBlank c = false := by
  have hdigit : ∀ d < 10, Text.isBlank (Nat.digitChar d) = false := by decide
  obtain ⟨d, rest, -, hcs⟩ := h.head
  refine ⟨by simp [hcs], fun c hc => ?_⟩
  obtain ⟨d, hd, rfl⟩ := h.mem hc
  exact hdigit d hd

/-- No sign is blank either. -/
theorem Digits.sign_not_blank {sign : Char} {cs : List Char} {n : Nat} (h : Digits cs n)
    (hsign : Text.isBlank sign = false) :
    sign :: cs ≠ [] ∧ ∀ c ∈ sign :: cs, Text.isBlank c = false :=
  ⟨by simp, List.forall_mem_cons.2 ⟨hsign, h.not_blank.2⟩⟩

theorem Unsigned.not_blank {cs : List Char} {n : Nat} (h : Unsigned cs n) :
    cs ≠ [] ∧ ∀ c ∈ cs, Text.isBlank c = false := by
  cases h with
  | bare h => exact h.not_blank
  | plus h => exact h.sign_not_blank (by decide)

theorem Signed.not_blank {cs : List Char} {n : Int} (h : Signed cs n) :
    cs ≠ [] ∧ ∀ c ∈ cs, Text.isBlank c = false := by
  cases h with
  | bare h => exact h.not_blank
  | plus h => exact h.sign_not_blank (by decide)
  | minus h => exact h.sign_not_blank (by decide)

end Decimal
end ControlPlane
