/-
What shares are worth as numbers, and what of the default hangs on that. Shares
that differ and are worth the same can only be the two zeros; so as long as any
version has a share above zero, the default is declared by what the shares are
worth (`default?_eq_some_iff_worth`). When all shares are zeros, their signs
decide (`default?_eq_some_iff_zeros`).
-/
import ControlPlane.Proofs.DefaultVersion
import Mathlib.Algebra.Order.Field.Rat
import Mathlib.Tactic.Linarith
import Mathlib.Tactic.NormNum
import Mathlib.Tactic.Positivity

namespace ControlPlane

/-! ## Values -/

namespace Double

/-- The number that a finite double stands for. -/
def value (d : Double) : ℚ :=
  (if d.isNegative then -1 else 1) * (((fraction d.magnitude).1 : ℚ) / (fraction d.magnitude).2)

def exponent (m : Nat) : Nat := max (m / exponentStep) 1

def significand (m : Nat) : Nat :=
  if m < exponentStep then m else m % exponentStep + exponentStep

/-- The value of a finite pattern, as a multiple of the least there is above zero. -/
def units (m : Nat) : Nat := significand m * 2 ^ (exponent m - 1)

theorem fraction_eq (m : Nat) : fraction m =
    (significand m * 2 ^ (exponent m - 1075), 2 ^ (1075 - exponent m)) :=
  rfl

/-- How many units make one. -/
def unitsInOne : Nat := 2 ^ 1074

theorem unitsInOne_pos : 0 < unitsInOne := by
  unfold unitsInOne
  positivity

theorem fraction_units (m : Nat) : (fraction m).1 * unitsInOne = units m * (fraction m).2 := by
  have hexponent : exponent m - 1075 + 1074 = exponent m - 1 + (1075 - exponent m) := by
    have hpos : 1 ≤ exponent m := le_max_right _ _
    omega
  rw [fraction_eq, unitsInOne, units, mul_assoc, mul_assoc, ← pow_add, ← pow_add, hexponent]

theorem units_lt (m : Nat) : units m < exponentStep * 2 ^ (m / exponentStep) := by
  by_cases hm : m < exponentStep
  · have hquotient : m / exponentStep = 0 := Nat.div_eq_of_lt hm
    rw [units, significand, exponent, if_pos hm, hquotient]
    simpa using hm
  · have hpos : 0 < m / exponentStep := Nat.div_pos (Nat.le_of_not_lt hm) (by decide)
    obtain ⟨q, hq⟩ : ∃ q, m / exponentStep = q + 1 := ⟨_, (Nat.succ_pred_eq_of_pos hpos).symm⟩
    have hmod : m % exponentStep < exponentStep := Nat.mod_lt m (by decide)
    have hexponent : exponent m = q + 1 := by rw [exponent, hq]; exact max_eq_left (by omega)
    calc units m = (m % exponentStep + exponentStep) * 2 ^ q := by
          rw [units, significand, if_neg hm, hexponent, Nat.add_sub_cancel]
      _ < (exponentStep * 2) * 2 ^ q :=
        Nat.mul_lt_mul_of_pos_right (by omega) (Nat.pow_pos (by decide))
      _ = exponentStep * 2 ^ (m / exponentStep) := by rw [hq, pow_succ, mul_assoc, mul_comm 2]

theorem le_units {m : Nat} (h : exponentStep ≤ m) :
    exponentStep * 2 ^ (m / exponentStep - 1) ≤ units m := by
  have hpos : 0 < m / exponentStep := Nat.div_pos h (by decide)
  have hexponent : exponent m = m / exponentStep := max_eq_left hpos
  rw [units, significand, if_neg (Nat.not_lt.2 h), hexponent]
  exact Nat.mul_le_mul_right _ (Nat.le_add_left _ _)

/-- A greater pattern stands for a greater number. -/
theorem units_strictMono : StrictMono units := by
  intro m m' h
  obtain hquotient | hquotient := (Nat.div_le_div_right h.le : m / exponentStep ≤ _).eq_or_lt
  · have hsignificand : significand m < significand m' := by
      unfold significand
      unfold exponentStep at hquotient ⊢
      split <;> split <;> omega
    rw [units, units, exponent, exponent, hquotient]
    exact Nat.mul_lt_mul_of_pos_right hsignificand (Nat.pow_pos (by decide))
  · have hlarge : exponentStep ≤ m' := by
      by_contra hsmall
      rw [Nat.div_eq_of_lt (Nat.lt_of_not_le hsmall)] at hquotient
      exact absurd hquotient (Nat.not_lt_zero _)
    calc units m < exponentStep * 2 ^ (m / exponentStep) := units_lt m
      _ ≤ exponentStep * 2 ^ (m' / exponentStep - 1) :=
        Nat.mul_le_mul_left _ (Nat.pow_le_pow_right (by decide) (by omega))
      _ ≤ units m' := le_units hlarge

theorem units_zero : units 0 = 0 := by decide

theorem value_eq (d : Double) :
    d.value = (if d.isNegative then -1 else 1) * ((units d.magnitude : ℚ) / unitsInOne) := by
  have hunits : ((fraction d.magnitude).1 : ℚ) * unitsInOne =
      units d.magnitude * (fraction d.magnitude).2 := by
    exact_mod_cast fraction_units d.magnitude
  have hscale : (unitsInOne : ℚ) ≠ 0 := Nat.cast_ne_zero.2 unitsInOne_pos.ne'
  have hpos : ((fraction d.magnitude).2 : ℚ) ≠ 0 := by
    rw [fraction_eq]
    positivity
  rw [value, (div_eq_div_iff hpos hscale).2 hunits]

theorem value_one : one.value = 1 := by
  have hfraction : fraction one.magnitude = (exponentStep, exponentStep) := by decide
  have hsign : one.isNegative = false := by decide
  rw [value, hfraction, hsign]
  norm_num [exponentStep]

/-- Zero is worth nothing, with a sign or without. -/
theorem value_of_magnitude_eq_zero {d : Double} (h : d.magnitude = 0) : d.value = 0 := by
  rw [value_eq, h, units_zero, Nat.cast_zero, zero_div, mul_zero]

theorem value_zero : zero.value = 0 := value_of_magnitude_eq_zero rfl

/-- What can be kept as a share has a sign only if it is zero. -/
theorem IsUsable.magnitude_eq {d : Double} (h : d.IsUsable) (hsign : d.isNegative = true) :
    d.magnitude = 0 := by
  obtain ⟨hfinite, hbelow⟩ := h
  have hle : d.magnitude ≤ infinite := Nat.le_of_lt (of_decide_eq_true hfinite)
  simpa [isBelowZero, hsign, hle] using hbelow

theorem IsUsable.value_eq {d : Double} (h : d.IsUsable) :
    d.value = (units d.magnitude : ℚ) / unitsInOne := by
  by_cases hsign : d.isNegative = true
  · have hzero := h.magnitude_eq hsign
    rw [value_of_magnitude_eq_zero hzero, hzero, units_zero, Nat.cast_zero, zero_div]
  · rw [Double.value_eq, if_neg hsign, one_mul]

theorem IsUsable.value_le_iff {d d' : Double} (h : d.IsUsable) (h' : d'.IsUsable) :
    d.value ≤ d'.value ↔ d.magnitude ≤ d'.magnitude := by
  have hscale : (0 : ℚ) < unitsInOne := Nat.cast_pos.2 unitsInOne_pos
  rw [h.value_eq, h'.value_eq, div_le_div_iff_of_pos_right hscale, Nat.cast_le,
    units_strictMono.le_iff_le]

theorem IsUsable.value_nonneg {d : Double} (h : d.IsUsable) : 0 ≤ d.value := by
  rw [h.value_eq]
  positivity

/-- What can be kept as a share are the finite numbers from zero on. -/
theorem isUsable_iff {d : Double} : d.IsUsable ↔ d.isFinite = true ∧ 0 ≤ d.value := by
  refine ⟨fun h => ⟨h.1, h.value_nonneg⟩, fun ⟨hfinite, hnonneg⟩ => ⟨hfinite, ?_⟩⟩
  by_contra hbelow
  simp only [isBelowZero, Bool.not_eq_false, Bool.and_eq_true, bne_iff_ne] at hbelow
  obtain ⟨⟨hsign, hmagnitude⟩, -⟩ := hbelow
  have hunits : 0 < units d.magnitude := by
    rw [← units_zero]
    exact units_strictMono (Nat.pos_of_ne_zero hmagnitude)
  have hvalue : (0 : ℚ) < units d.magnitude / unitsInOne :=
    div_pos (Nat.cast_pos.2 hunits) (Nat.cast_pos.2 unitsInOne_pos)
  rw [value_eq, if_pos hsign] at hnonneg
  linarith

theorem IsUsable.value_lt_iff {d d' : Double} (h : d.IsUsable) (h' : d'.IsUsable) :
    d.value < d'.value ↔ d.magnitude < d'.magnitude := by
  rw [← not_le, h'.value_le_iff h, not_le]

theorem IsUsable.value_eq_iff {d d' : Double} (h : d.IsUsable) (h' : d'.IsUsable) :
    d.value = d'.value ↔ d.magnitude = d'.magnitude := by
  rw [le_antisymm_iff, le_antisymm_iff, h.value_le_iff h', h'.value_le_iff h]

/-- In the total order shares are ordered as numbers are, and of the zeros the one
with a sign is below. -/
theorem IsUsable.atMost_iff {d d' : Double} (h : d.IsUsable) (h' : d'.IsUsable) :
    d.AtMost d' ↔ d.value < d'.value ∨
      d.value = d'.value ∧ (d'.isNegative = true → d.isNegative = true) := by
  rw [h.value_lt_iff h', h.value_eq_iff h', AtMost]
  cases hsign : d.isNegative with
  | true =>
    have hzero := h.magnitude_eq hsign
    cases hsign' : d'.isNegative with
    | true => simp [hzero, h'.magnitude_eq hsign']
    | false => simp [hzero, Nat.pos_iff_ne_zero, eq_comm, or_comm, em]
  | false =>
    cases hsign' : d'.isNegative with
    | true => simp [h'.magnitude_eq hsign']
    | false => simp [Nat.le_iff_lt_or_eq]

theorem IsUsable.isNegative_of_pos {d : Double} (h : d.IsUsable) (hpos : 0 < d.value) :
    d.isNegative = false := by
  cases hsign : d.isNegative with
  | false => rfl
  | true =>
    rw [value_of_magnitude_eq_zero (h.magnitude_eq hsign)] at hpos
    exact absurd hpos (lt_irrefl 0)

/-- Two shares above zero that are worth the same are one double. -/
theorem IsUsable.eq_of_value {d d' : Double} (h : d.IsUsable) (h' : d'.IsUsable)
    (hvalue : d.value = d'.value) (hpos : 0 < d.value) : d = d' := by
  rw [← rank_inj, rank, rank, h.isNegative_of_pos hpos, h'.isNegative_of_pos (hvalue ▸ hpos),
    (h.value_eq_iff h').1 hvalue]

theorem isUsable_zero : zero.IsUsable := by decide

/-- What is worth nothing is zero, if it has no sign. -/
theorem IsUsable.eq_zero_iff {d : Double} (h : d.IsUsable) (hvalue : d.value = 0) :
    d = zero ↔ d.isNegative = false := by
  have hmagnitude : d.magnitude = zero.magnitude :=
    (h.value_eq_iff isUsable_zero).1 (hvalue.trans value_zero.symm)
  constructor
  · rintro rfl
    decide
  · intro hsign
    have hsign' : zero.isNegative = false := by decide
    rw [← rank_inj, rank, rank, hsign, hsign', hmagnitude]

end Double

/-! ## The default -/

namespace TrafficSplit

variable {split : TrafficSplit} {name : String}

/-- What a version's share is worth, if it has one. -/
def worth (split : TrafficSplit) (name : String) : Option ℚ := (split.get? name).map Double.value

theorem worth_eq_some_iff {x : ℚ} :
    split.worth name = some x ↔ ∃ share, split.get? name = some share ∧ share.value = x :=
  Option.map_eq_some_iff

theorem get?_usable {share : Double} (h : split.get? name = some share) : share.IsUsable :=
  split.usable _ (get?_eq_some_iff.1 h)

theorem worth_eq_one : split.worth name = some 1 ↔ split.get? name = some .one := by
  rw [worth_eq_some_iff]
  constructor
  · rintro ⟨share, hshare, hvalue⟩
    have hone : share = .one := (get?_usable hshare).eq_of_value (by decide)
      (hvalue.trans Double.value_one.symm) (hvalue ▸ one_pos)
    rw [hshare, hone]
  · exact fun h => ⟨.one, h, Double.value_one⟩

/-- If any share is above zero, those that are worth most are the greatest in the
total order too. -/
theorem largest_worth_iff (hpos : ∃ name x, split.worth name = some x ∧ 0 < x) :
    Largest (· ≤ ·) split.worth name ↔ Largest Double.AtMost split.get? name := by
  constructor
  · rintro ⟨x, hx, hmost⟩
    obtain ⟨share, hshare, rfl⟩ := worth_eq_some_iff.1 hx
    refine ⟨share, hshare, fun other share' hother => ?_⟩
    have hle : share'.value ≤ share.value :=
      hmost other _ (worth_eq_some_iff.2 ⟨share', hother, rfl⟩)
    rw [(get?_usable hother).atMost_iff (get?_usable hshare)]
    obtain hlt | heq := hle.lt_or_eq
    · exact .inl hlt
    · obtain ⟨some', x, hx', hpos⟩ := hpos
      have habove : 0 < share'.value := by
        rw [heq]
        exact hpos.trans_le (hmost some' x hx')
      rw [(get?_usable hother).eq_of_value (get?_usable hshare) heq habove]
      exact .inr ⟨rfl, id⟩
  · rintro ⟨share, hshare, hmost⟩
    refine ⟨share.value, worth_eq_some_iff.2 ⟨share, hshare, rfl⟩, fun other x hx => ?_⟩
    obtain ⟨share', hother, rfl⟩ := worth_eq_some_iff.1 hx
    obtain hlt | ⟨heq, -⟩ :=
      ((get?_usable hother).atMost_iff (get?_usable hshare)).1 (hmost other share' hother)
    · exact hlt.le
    · exact heq.le

/-- If any share is above zero, the default is declared by what shares are worth. -/
theorem default?_eq_some_iff_worth (hpos : ∃ name x, split.worth name = some x ∧ 0 < x) :
    split.default? = some name ↔ IsDefault (· ≤ ·) 1 split.worth name := by
  rw [default?_eq_some_iff]
  exact ⟨.congr (fun _ => worth_eq_one.symm) fun _ => (largest_worth_iff hpos).symm,
    .congr (fun _ => worth_eq_one) fun _ => largest_worth_iff hpos⟩

section Zeros

variable (hzero : ∀ name x, split.worth name = some x → x = 0)
include hzero

theorem value_of_zeros {share : Double} (h : split.get? name = some share) : share.value = 0 :=
  hzero name _ (worth_eq_some_iff.2 ⟨share, h, rfl⟩)

/-- Of zeros those without a sign are the greatest. -/
theorem largest_zeros_iff {other : String} (hother : split.get? other = some .zero) :
    Largest Double.AtMost split.get? name ↔ split.get? name = some .zero := by
  constructor
  · rintro ⟨share, hshare, hmost⟩
    have husable := get?_usable hshare
    obtain hlt | ⟨-, hsigns⟩ :=
      (Double.isUsable_zero.atMost_iff husable).1 (hmost other .zero hother)
    · rw [value_of_zeros hzero hother, value_of_zeros hzero hshare] at hlt
      exact absurd hlt (lt_irrefl _)
    · have hsign : share.isNegative = false := by
        by_contra hsign
        exact absurd (hsigns (by simpa using hsign)) (by decide)
      rw [hshare, (husable.eq_zero_iff (value_of_zeros hzero hshare)).2 hsign]
  · intro hshare
    refine ⟨.zero, hshare, fun other share' hother => ?_⟩
    rw [(get?_usable hother).atMost_iff Double.isUsable_zero, value_of_zeros hzero hother,
      value_of_zeros hzero hshare]
    exact .inr ⟨rfl, fun hsign => absurd hsign (by decide)⟩

/-- Of zeros that all have a sign each is the greatest. -/
theorem largest_signed_zeros_iff (hnone : ∀ other, split.get? other ≠ some .zero) :
    Largest Double.AtMost split.get? name ↔ split.get? name ≠ none := by
  constructor
  · rintro ⟨share, hshare, -⟩
    rw [hshare]
    exact Option.some_ne_none share
  · intro hsome
    obtain ⟨share, hshare⟩ := Option.ne_none_iff_exists'.1 hsome
    refine ⟨share, hshare, fun other share' hother => ?_⟩
    rw [(get?_usable hother).atMost_iff (get?_usable hshare), value_of_zeros hzero hother,
      value_of_zeros hzero hshare]
    refine .inr ⟨rfl, fun _ => ?_⟩
    have hdiffer : share' ≠ .zero := fun heq => hnone other (heq ▸ hother)
    rw [Ne, (get?_usable hother).eq_zero_iff (value_of_zeros hzero hother)] at hdiffer
    simpa using hdiffer

/-- If all shares are zeros, the default is the first without a sign, or the first
of all if all have one. -/
theorem default?_eq_some_iff_zeros :
    split.default? = some name ↔ First (split.get? · = some .zero) name ∨
      (∀ other, split.get? other ≠ some .zero) ∧ First (split.get? · ≠ none) name := by
  have hnone (other : String) : split.get? other ≠ some .one := fun hother =>
    absurd (hzero other 1 (worth_eq_one.2 hother)) one_ne_zero
  have hlargest : IsDefault Double.AtMost .one split.get? name ↔
      First (Largest Double.AtMost split.get?) name := by
    refine ⟨fun h => ?_, .largest hnone⟩
    cases h with
    | whole hfirst => exact absurd hfirst.holds (hnone name)
    | largest _ hfirst => exact hfirst
  rw [default?_eq_some_iff, hlargest]
  by_cases hplain : ∃ other, split.get? other = some .zero
  · obtain ⟨other, hother⟩ := hplain
    rw [First.congr fun _ => largest_zeros_iff hzero hother]
    refine ⟨.inl, ?_⟩
    rintro (hfirst | ⟨hsigned, -⟩)
    · exact hfirst
    · exact absurd hother (hsigned other)
  · have hsigned : ∀ other, split.get? other ≠ some .zero := not_exists.1 hplain
    rw [First.congr fun _ => largest_signed_zeros_iff hzero hsigned]
    refine ⟨fun hfirst => .inr ⟨hsigned, hfirst⟩, ?_⟩
    rintro (hfirst | ⟨-, hfirst⟩)
    · exact absurd hfirst.holds (hsigned name)
    · exact hfirst

end Zeros

/-- **The default by what shares are worth.** If any share is above zero, the
default is declared by the worths alone: the first of the versions with one, or if
none has, the first of those with most. If all are zeros, those without a sign go
before those with one. -/
theorem default_by_worth (split : TrafficSplit) :
    ((∃ name x, split.worth name = some x ∧ 0 < x) →
      (∀ name, split.default? = some name ↔ IsDefault (· ≤ ·) 1 split.worth name) ∧
      ∀ split' : TrafficSplit, (∀ name, split'.worth name = split.worth name) →
        split'.default? = split.default?) ∧
    ((∀ name x, split.worth name = some x → x = 0) → ∀ name,
      split.default? = some name ↔ First (split.get? · = some .zero) name ∨
        (∀ other, split.get? other ≠ some .zero) ∧ First (split.get? · ≠ none) name) := by
  refine ⟨fun hpos => ⟨fun name => default?_eq_some_iff_worth hpos, fun split' hworth => ?_⟩,
    fun hzero name => default?_eq_some_iff_zeros hzero⟩
  have hsame : split'.worth = split.worth := funext hworth
  refine Option.ext fun name => ?_
  rw [default?_eq_some_iff_worth hpos, default?_eq_some_iff_worth (hsame ▸ hpos), hsame]

/-- The sign of a zero is of no account beside a half, and decides between zeros. -/
theorem default_by_worth_signed_zero :
    (ofList [("b", ⟨0x3FE0000000000000⟩), ("a", ⟨0x8000000000000000⟩)]).default? =
        (ofList [("b", ⟨0x3FE0000000000000⟩), ("a", .zero)]).default? ∧
      (ofList [("a", ⟨0x8000000000000000⟩), ("b", .zero)]).default? = some "b" ∧
      (ofList [("a", .zero), ("b", .zero)]).default? = some "a" := by
  have hsame : (⟨0x8000000000000000⟩ : Double).value = Double.zero.value :=
    (Double.IsUsable.value_eq_iff (by decide) Double.isUsable_zero).2 (by decide)
  have hhalf : 0 < (⟨0x3FE0000000000000⟩ : Double).value := by
    rw [← Double.value_zero]
    exact (Double.isUsable_zero.value_lt_iff (by decide)).2 (by decide)
  refine ⟨?_, ?_, ?_⟩
  · have hpos : ∃ name x,
        (ofList [("b", ⟨0x3FE0000000000000⟩), ("a", .zero)]).worth name = some x ∧ 0 < x :=
      ⟨"b", _, worth_eq_some_iff.2 ⟨⟨0x3FE0000000000000⟩, by decide, rfl⟩, hhalf⟩
    refine ((default_by_worth _).1 hpos).2 _ fun name => ?_
    have hlist : (ofList [("b", ⟨0x3FE0000000000000⟩), ("a", ⟨0x8000000000000000⟩)]).shares.toList =
        [("a", ⟨0x8000000000000000⟩), ("b", ⟨0x3FE0000000000000⟩)] := by decide
    have hlist' : (ofList [("b", ⟨0x3FE0000000000000⟩), ("a", .zero)]).shares.toList =
        [("a", .zero), ("b", ⟨0x3FE0000000000000⟩)] := by decide
    simp only [worth, get?, NameMap.get?, hlist, hlist', find?]
    split_ifs
    · exact congrArg some hsame
    · rfl
    · rfl
  · have hlist : (ofList [("a", ⟨0x8000000000000000⟩), ("b", .zero)]).toList =
        [("a", ⟨0x8000000000000000⟩), ("b", .zero)] := by decide
    have hzeros : ∀ name x,
        (ofList [("a", ⟨0x8000000000000000⟩), ("b", .zero)]).worth name = some x → x = 0 := by
      intro name x hx
      obtain ⟨share, hshare, rfl⟩ := worth_eq_some_iff.1 hx
      rw [get?_eq_some_iff, hlist] at hshare
      simp only [List.mem_cons, Prod.mk.injEq, List.not_mem_nil, or_false] at hshare
      obtain ⟨-, rfl⟩ | ⟨-, rfl⟩ := hshare
      · exact hsame.trans Double.value_zero
      · exact Double.value_zero
    refine ((default_by_worth _).2 hzeros "b").2 (.inl ⟨by decide, fun other hother => ?_⟩)
    rw [get?_eq_some_iff, hlist] at hother
    simp only [List.mem_cons, Prod.mk.injEq, List.not_mem_nil, or_false] at hother
    obtain ⟨rfl, hbits⟩ | ⟨rfl, -⟩ := hother
    · exact absurd hbits (by decide)
    · exact Text.Before.irrefl _
  · decide

end TrafficSplit
end ControlPlane
