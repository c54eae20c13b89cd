/-
The default version of a split, told without a walk through its entries: the
first of the names with a share of exactly one, else the first of those with the
greatest share there is (`default?_eq_some_iff`). The walk comes to it because it
keeps the entry that none so far beats, and entries come in name order.
-/
import ControlPlane.TrafficSplit

namespace ControlPlane

open Text (Before)

/-! ## Names -/

/-- Of the names with a property, the one that no other comes before. -/
structure First (p : String → Prop) (name : String) : Prop where
  holds : p name
  first : ∀ other, p other → ¬ Before other name

theorem First.unique {p : String → Prop} {name name' : String} (h : First p name)
    (h' : First p name') : name = name' :=
  Text.eq_of_not_before (h'.first name h.holds) (h.first name' h'.holds)

theorem First.congr {p p' : String → Prop} (h : ∀ name, p name ↔ p' name) {name : String} :
    First p name ↔ First p' name := by
  rw [funext fun name => propext (h name)]

theorem Text.not_before_trans {a b c : String} (h : ¬ Before a b) (h' : ¬ Before b c) :
    ¬ Before a c := by
  intro hac
  by_cases hcb : Before c b
  · exact h (hac.trans hcb)
  · exact h (Text.eq_of_not_before h' hcb ▸ hac)

/-- In name order each name stands once, so any entry is the one that is found. -/
theorem find?_eq_some_iff {α : Type} {entries : List (String × α)} (h : Ascending entries)
    {name : String} {value : α} : find? name entries = some value ↔ (name, value) ∈ entries := by
  induction entries with
  | nil => simp [find?]
  | cons head rest ih =>
    obtain ⟨n, v⟩ := head
    obtain ⟨first, later⟩ := List.pairwise_cons.1 h
    rw [find?, List.mem_cons]
    split
    · next hname =>
      subst hname
      constructor
      · intro hvalue
        cases hvalue
        exact .inl rfl
      · rintro (heq | hmem)
        · cases heq
          rfl
        · exact absurd (first _ hmem) (Before.irrefl _)
    · next hname =>
      rw [ih later]
      constructor
      · exact .inr
      · rintro (heq | hmem)
        · cases heq
          exact absurd rfl hname
        · exact hmem

/-! ## Doubles -/

namespace Double

/-- The total order of all doubles: those with a sign are below those without, and
the magnitude decides between two alike, the greater being the lower one if they
have a sign. -/
def AtMost (d d' : Double) : Prop :=
  match d.isNegative, d'.isNegative with
  | true, false => True
  | false, true => False
  | false, false => d.magnitude ≤ d'.magnitude
  | true, true => d'.magnitude ≤ d.magnitude

theorem rank_le_iff {d d' : Double} : d.rank ≤ d'.rank ↔ d.AtMost d' := by
  unfold rank AtMost
  cases d.isNegative <;> cases d'.isNegative <;>
    simp only [if_true, if_false, Bool.false_eq_true, iff_true, iff_false] <;> omega

theorem isNegative_iff {d : Double} : d.isNegative = true ↔ signBit ≤ d.bits.toNat :=
  decide_eq_true_iff

/-- A place in the order is that of one double only. -/
theorem rank_inj {d d' : Double} : d.rank = d'.rank ↔ d = d' := by
  refine ⟨fun h => ?_, fun h => h ▸ rfl⟩
  have hlt := d.bits.toNat_lt
  have hlt' := d'.bits.toNat_lt
  have hbits : d.bits.toNat = d'.bits.toNat := by
    have hsign := isNegative_iff (d := d)
    have hsign' := isNegative_iff (d := d')
    unfold rank magnitude at h
    unfold signBit at h hsign hsign'
    cases hneg : d.isNegative <;> cases hneg' : d'.isNegative <;> simp [hneg, hneg'] at * <;> omega
  exact congrArg mk (UInt64.toNat_inj.1 hbits)

end Double

/-! ## The declared default -/

section Declared

variable {α : Type} (atMost : α → α → Prop) (whole : α) (shares : String → Option α)

/-- The name's share is the greatest. -/
def Largest (name : String) : Prop :=
  ∃ share, shares name = some share ∧
    ∀ other share', shares other = some share' → atMost share' share

/-- The name is the default of names with these shares: the first with all there
is, else the first with most. -/
inductive IsDefault (name : String) : Prop
  | whole : First (shares · = some whole) name → IsDefault name
  | largest : (∀ other, shares other ≠ some whole) → First (Largest atMost shares) name →
      IsDefault name

variable {atMost whole shares}

theorem IsDefault.unique {name name' : String} (h : IsDefault atMost whole shares name)
    (h' : IsDefault atMost whole shares name') : name = name' := by
  cases h with
  | whole hfirst =>
    cases h' with
    | whole hfirst' => exact hfirst.unique hfirst'
    | largest hnone => exact absurd hfirst.holds (hnone name)
  | largest hnone hfirst =>
    cases h' with
    | whole hfirst' => exact absurd hfirst'.holds (hnone name')
    | largest _ hfirst' => exact hfirst.unique hfirst'

/-- A default has a share, whichever way it is one. -/
theorem IsDefault.has_share {name : String} (h : IsDefault atMost whole shares name) :
    ∃ share, shares name = some share := by
  cases h with
  | whole hfirst => exact ⟨_, hfirst.holds⟩
  | largest _ hfirst =>
    obtain ⟨share, hshare, -⟩ := hfirst.holds
    exact ⟨share, hshare⟩

/-- Only which names have all there is and which have most matters. -/
theorem IsDefault.congr {β : Type} {atMost' : β → β → Prop} {whole' : β}
    {shares' : String → Option β} {name : String}
    (hwhole : ∀ name, shares name = some whole ↔ shares' name = some whole')
    (hlargest : ∀ name, Largest atMost shares name ↔ Largest atMost' shares' name)
    (h : IsDefault atMost whole shares name) : IsDefault atMost' whole' shares' name := by
  cases h with
  | whole hfirst => exact .whole ((First.congr hwhole).1 hfirst)
  | largest hnone hfirst =>
    exact .largest (fun other hother => hnone other ((hwhole other).2 hother))
      ((First.congr hlargest).1 hfirst)

end Declared

namespace TrafficSplit

/-! ## The best entry -/

/-- The entry is to be chosen before the other: it has the greater share, or of
equal ones the name that comes first. -/
def Beats (e e' : String × Double) : Prop :=
  e'.2.rank < e.2.rank ∨ e.2.rank = e'.2.rank ∧ Before e.1 e'.1

theorem not_beats_iff {e e' : String × Double} :
    ¬ Beats e e' ↔ e.2.rank ≤ e'.2.rank ∧ (e.2.rank = e'.2.rank → ¬ Before e.1 e'.1) := by
  rw [Beats, not_or, Int.not_lt, not_and]

theorem not_beats_trans {a b c : String × Double} (h : ¬ Beats a b) (h' : ¬ Beats b c) :
    ¬ Beats a c := by
  rw [not_beats_iff] at h h' ⊢
  obtain ⟨hrank, hname⟩ := h
  obtain ⟨hrank', hname'⟩ := h'
  refine ⟨Int.le_trans hrank hrank', fun heq => ?_⟩
  exact Text.not_before_trans (hname (by omega)) (hname' (by omega))

theorem not_beats_self (e : String × Double) : ¬ Beats e e :=
  not_beats_iff.2 ⟨Int.le_refl _, fun _ => Before.irrefl _⟩

/-- The better of two entries is one of them, and neither beats it. -/
theorem better_spec (best next : String × Double) :
    (better best next = best ∨ better best next = next) ∧
      ¬ Beats best (better best next) ∧ ¬ Beats next (better best next) := by
  by_cases hbeats : Beats next best
  · have hbetter : better best next = next := by
      obtain hrank | ⟨hrank, hname⟩ := hbeats
      · rw [better, if_pos hrank]
      · rw [better, if_neg (by omega), if_pos ⟨hrank, hname⟩]
    rw [hbetter]
    refine ⟨.inr rfl, not_beats_iff.2 ?_, not_beats_self next⟩
    obtain hrank | ⟨hrank, hname⟩ := hbeats
    · exact ⟨by omega, fun heq => by omega⟩
    · exact ⟨by omega, fun _ => hname.asymm⟩
  · have hbetter : better best next = best := by
      rw [Beats, not_or] at hbeats
      rw [better, if_neg hbeats.1, if_neg hbeats.2]
    rw [hbetter]
    exact ⟨.inl rfl, not_beats_self best, hbeats⟩

/-- Without a share of one, the walk ends with an entry that none beats. -/
theorem defaultFrom_unbeaten (best : String × Double) {entries : List (String × Double)}
    (h : ∀ e ∈ entries, e.2.rank ≠ Double.one.rank) : ∃ e ∈ best :: entries,
      defaultFrom (some best) entries = some e.1 ∧ ∀ e' ∈ best :: entries, ¬ Beats e' e := by
  induction entries generalizing best with
  | nil => exact ⟨best, List.mem_cons_self, rfl, List.forall_mem_singleton.2 (not_beats_self best)⟩
  | cons next entries ih =>
    obtain ⟨hnext, hrest⟩ := List.forall_mem_cons.1 h
    obtain ⟨hchosen, hbest, hlost⟩ := better_spec best next
    obtain ⟨e, hmem, hdefault, hunbeaten⟩ := ih (better best next) hrest
    obtain ⟨hkept, hlater⟩ := List.forall_mem_cons.1 hunbeaten
    refine ⟨e, ?_, ?_, ?_⟩
    · obtain rfl | hmem := List.mem_cons.1 hmem
      · rw [List.mem_cons, List.mem_cons]
        exact hchosen.imp_right .inl
      · exact List.mem_cons_of_mem _ (List.mem_cons_of_mem _ hmem)
    · rw [defaultFrom, if_neg hnext]
      exact hdefault
    · rw [List.forall_mem_cons, List.forall_mem_cons]
      exact ⟨not_beats_trans hbest hkept, not_beats_trans hlost hkept, hlater⟩

/-- The walk stops at the first share of one, whatever was best before. -/
theorem defaultFrom_whole {entries : List (String × Double)} (h : Ascending entries)
    {name : String} (hmem : (name, .one) ∈ entries) (best : Option (String × Double)) :
    ∃ name', (name', Double.one) ∈ entries ∧ defaultFrom best entries = some name' ∧
      ∀ other, (other, Double.one) ∈ entries → ¬ Before other name' := by
  induction entries generalizing best with
  | nil => cases hmem
  | cons next entries ih =>
    obtain ⟨first, later⟩ := List.pairwise_cons.1 h
    rw [defaultFrom]
    by_cases hnext : next.2.rank = Double.one.rank
    · have heq : next = (next.1, .one) := Prod.ext rfl (Double.rank_inj.1 hnext)
      rw [if_pos hnext]
      refine ⟨next.1, heq ▸ List.mem_cons_self, rfl, fun other hother => ?_⟩
      obtain hhead | hother := List.mem_cons.1 hother
      · rw [← hhead]
        exact Before.irrefl other
      · exact (first _ hother).asymm
    · have hdiffer {other : String} (hother : (other, Double.one) ∈ next :: entries) :
          (other, Double.one) ∈ entries := by
        obtain hhead | hother := List.mem_cons.1 hother
        · exact absurd (congrArg (·.2.rank) hhead).symm hnext
        · exact hother
      obtain ⟨name', hmem', hdefault, hfirst⟩ :=
        ih later (hdiffer hmem) (some (best.elim next (better · next)))
      rw [if_neg hnext]
      exact ⟨name', List.mem_cons_of_mem _ hmem', hdefault,
        fun other hother => hfirst other (hdiffer hother)⟩

theorem defaultFrom_eq_none {best : Option (String × Double)}
    {entries : List (String × Double)} :
    defaultFrom best entries = none ↔ best = none ∧ entries = [] := by
  induction entries generalizing best with
  | nil => cases best <;> simp [defaultFrom]
  | cons e entries ih =>
    rw [defaultFrom]
    split <;> simp [ih]

/-! ## The default -/

theorem get?_eq_some_iff {split : TrafficSplit} {name : String} {share : Double} :
    split.get? name = some share ↔ (name, share) ∈ split.toList :=
  find?_eq_some_iff split.shares.ascending

theorem default?_eq_none {split : TrafficSplit} :
    split.default? = none ↔ ∀ name, split.get? name = none := by
  have hempty : split.toList = [] ↔ ∀ name, split.get? name = none := by
    simp only [Option.eq_none_iff_forall_ne_some, ne_eq, get?_eq_some_iff,
      List.eq_nil_iff_forall_not_mem, Prod.forall]
  rw [default?, defaultFrom_eq_none, ← hempty]
  exact and_iff_right rfl

/-- A walk that no share of one stops ends with a name whose share is the greatest. -/
theorem first_largest {split : TrafficSplit} {e : String × Double} (hmem : e ∈ split.toList)
    (h : ∀ e' ∈ split.toList, ¬ Beats e' e) : First (Largest Double.AtMost split.get?) e.1 where
  holds := by
    refine ⟨e.2, get?_eq_some_iff.2 hmem, fun other share' hother => ?_⟩
    rw [← Double.rank_le_iff]
    exact (not_beats_iff.1 (h _ (get?_eq_some_iff.1 hother))).1
  first := by
    rintro other ⟨share, hother, hgreatest⟩
    have hle := Double.rank_le_iff.2 (hgreatest e.1 e.2 (get?_eq_some_iff.2 hmem))
    obtain ⟨hrank, hname⟩ := not_beats_iff.1 (h _ (get?_eq_some_iff.1 hother))
    exact hname (Int.le_antisymm hrank hle)

theorem isDefault_default? {split : TrafficSplit} {name : String}
    (h : split.default? = some name) : IsDefault Double.AtMost .one split.get? name := by
  by_cases hwhole : ∃ other, split.get? other = some .one
  · obtain ⟨other, hother⟩ := hwhole
    obtain ⟨name', hmem, hdefault, hfirst⟩ :=
      defaultFrom_whole split.shares.ascending (get?_eq_some_iff.1 hother) none
    cases h.symm.trans hdefault
    exact .whole ⟨get?_eq_some_iff.2 hmem,
      fun other hother => hfirst other (get?_eq_some_iff.1 hother)⟩
  · have hnone : ∀ e ∈ split.toList, e.2.rank ≠ Double.one.rank := by
      intro e he hrank
      exact hwhole ⟨e.1, get?_eq_some_iff.2 (Double.rank_inj.1 hrank ▸ he)⟩
    rw [default?] at h
    cases hentries : split.toList with
    | nil => rw [hentries] at h; cases h
    | cons best entries =>
      rw [hentries, List.forall_mem_cons] at hnone
      obtain ⟨e, hmem, hdefault, hunbeaten⟩ := defaultFrom_unbeaten best hnone.2
      rw [hentries, defaultFrom, if_neg hnone.1] at h
      cases h.symm.trans hdefault
      rw [← hentries] at hmem hunbeaten
      exact .largest (fun other hother => hwhole ⟨other, hother⟩) (first_largest hmem hunbeaten)

theorem default?_eq_some_iff {split : TrafficSplit} {name : String} :
    split.default? = some name ↔ IsDefault Double.AtMost .one split.get? name := by
  refine ⟨isDefault_default?, fun h => ?_⟩
  cases hdefault : split.default? with
  | none =>
    obtain ⟨share, hshare⟩ := h.has_share
    cases hshare.symm.trans (default?_eq_none.1 hdefault name)
  | some name' => rw [(isDefault_default? hdefault).unique h]

/-- **The default is declared** by the shares: there is one just if the split is
not empty; it is the first of the versions that have exactly one, or if none has,
the first of those whose share is the greatest. How the split came to have its
shares makes no difference. -/
theorem default_declared (split : TrafficSplit) :
    (split.default? = none ↔ split.isEmpty = true) ∧
      (∀ name, split.default? = some name ↔ IsDefault Double.AtMost .one split.get? name) ∧
      ∀ split' : TrafficSplit, (∀ name, split'.get? name = split.get? name) →
        split'.default? = split.default? := by
  refine ⟨?_, fun name => default?_eq_some_iff, fun split' hshares => ?_⟩
  · rw [isEmpty, List.isEmpty_iff, default?, defaultFrom_eq_none]
    exact and_iff_right rfl
  · have hget : split'.get? = split.get? := funext hshares
    refine Option.ext fun name => ?_
    rw [default?_eq_some_iff, default?_eq_some_iff, hget]

/-- Two versions with all of the traffic, and one with more than all, inserted in
two orders and one of them twice. -/
theorem default_declared_inserted :
    (ofList [("b", .one), ("c", ⟨0x4000000000000000⟩), ("a", .one)]).default? = some "a" ∧
      (ofList [("a", .zero), ("c", ⟨0x4000000000000000⟩), ("b", .one), ("a", .one)]).default? =
        some "a" := by
  have hfirst :
      (ofList [("b", .one), ("c", ⟨0x4000000000000000⟩), ("a", .one)]).default? = some "a" := by
    decide
  have hlists :
      (ofList [("a", .zero), ("c", ⟨0x4000000000000000⟩), ("b", .one), ("a", .one)]).shares.toList =
        (ofList [("b", .one), ("c", ⟨0x4000000000000000⟩), ("a", .one)]).shares.toList := by
    decide
  obtain ⟨-, -, hsame⟩ :=
    default_declared (ofList [("b", .one), ("c", ⟨0x4000000000000000⟩), ("a", .one)])
  exact ⟨hfirst, (hsame _ fun name => congrArg (find? name) hlists).trans hfirst⟩

end TrafficSplit
end ControlPlane
