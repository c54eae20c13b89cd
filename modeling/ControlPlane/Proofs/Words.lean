/-
Command lines as they are written. What a line gives is told by a grammar that
knows no order of trying: its options with their values, and its operands, as they
stand. A line that is read is spelled by that grammar, and reading has done with
what it gives, in order, what the options and operands do
(`Grammar.spells_of_read`).
-/
import ControlPlane.CommandLine.Words
import ControlPlane.Proofs.Fallible

namespace ControlPlane.CommandLine

open Fallible

variable {σ : Type}

/-- Something that the words of a command line give. -/
inductive Given (σ : Type)
  | flag (option : OptionSpec σ)
  | value (option : OptionSpec σ) (value : String)
  | operand (value : String)

namespace Given

/-- The value given to the option of a name. -/
def valueOf (name : String) (items : List (Given σ)) : Option String :=
  items.findSome? fun
    | value option v => if option.long = name then some v else none
    | _ => none

/-- Whether the flag of a name is given. -/
def isGiven (name : String) (items : List (Given σ)) : Bool :=
  items.any fun
    | flag option => option.long = name
    | _ => false

end Given

namespace Grammar

/-- What a command does with something that is given. -/
def take (g : Grammar σ) (s : σ) : Given σ → Except Halt σ
  | .flag option => match option.action with
    | .flag set => set s
    | .value _ => .error .refused
  | .value option v => match option.action with
    | .flag _ => .error .refused
    | .value set => set v s
  | .operand v => g.operand v s

/-- The letters of a word spell options, of which the last may have its value in
the word, after an equals sign or not, or want the next word as its value. -/
inductive SpellsLetters (g : Grammar σ) :
    List Char → List (Given σ) → Option (OptionSpec σ) → Prop
  | nil : SpellsLetters g [] [] none
  | flag {option letter set cs items wanting} : option ∈ g.options → option.short = some letter →
      option.action = .flag set → SpellsLetters g cs items wanting →
      SpellsLetters g (letter :: cs) (.flag option :: items) wanting
  | wanting {option letter set} : option ∈ g.options → option.short = some letter →
      option.action = .value set → SpellsLetters g [letter] [] (some option)
  | attached {option letter set c cs} : option ∈ g.options → option.short = some letter →
      option.action = .value set → c ≠ '=' →
      SpellsLetters g (letter :: c :: cs) [.value option (String.ofList (c :: cs))] none
  | assigned {option letter set v} : option ∈ g.options → option.short = some letter →
      option.action = .value set →
      SpellsLetters g (letter :: '=' :: v) [.value option (String.ofList v)] none

/-- A word spells an option by its name, or options by their letters. -/
inductive SpellsOption (g : Grammar σ) :
    List Char → List (Given σ) → Option (OptionSpec σ) → Prop
  | flag {option set} : option ∈ g.options → option.action = .flag set →
      SpellsOption g ('-' :: '-' :: option.long.toList) [.flag option] none
  | wanting {option set} : option ∈ g.options → option.action = .value set →
      SpellsOption g ('-' :: '-' :: option.long.toList) [] (some option)
  | assigned {option set v} : option ∈ g.options → option.action = .value set →
      SpellsOption g ('-' :: '-' :: (option.long.toList ++ '=' :: v))
        [.value option (String.ofList v)] none
  | letters {cs items wanting} : cs ≠ [] → SpellsLetters g cs items wanting →
      SpellsOption g ('-' :: cs) items wanting

/-- Words spell what they give, up to their end or to a command. -/
inductive Spells (g : Grammar σ) :
    List String → List (Given σ) → Option (String × List String) → Prop
  | nil : Spells g [] [] none
  | command {name rest} : name ∈ g.commands → Spells g (name :: rest) [] (some (name, rest))
  | operands (rest) : Spells g ("--" :: rest) (rest.map .operand) none
  | operand {v rest items tail} : v ∉ g.commands → isValueWord v = true →
      Spells g rest items tail → Spells g (v :: rest) (.operand v :: items) tail
  | option {word given rest items tail} : SpellsOption g word.toList given none →
      Spells g rest items tail → Spells g (word :: rest) (given ++ items) tail
  | wanting {word given option v rest items tail} :
      SpellsOption g word.toList given (some option) → isValueWord v = true →
      Spells g rest items tail →
      Spells g (word :: v :: rest) (given ++ .value option v :: items) tail

variable {g : Grammar σ}

/-! ## Options -/

theorem exists_of_long? {name : String} {action : Action σ} (h : g.long? name = some action) :
    ∃ option ∈ g.options, option.long = name ∧ option.action = action := by
  obtain ⟨option, hfind, haction⟩ := Option.map_eq_some_iff.1 h
  exact ⟨option, List.mem_of_find?_eq_some hfind, by simpa using List.find?_some hfind, haction⟩

theorem exists_of_short? {letter : Char} {action : Action σ} (h : g.short? letter = some action) :
    ∃ option ∈ g.options, option.short = some letter ∧ option.action = action := by
  obtain ⟨option, hfind, haction⟩ := Option.map_eq_some_iff.1 h
  exact ⟨option, List.mem_of_find?_eq_some hfind, by simpa using List.find?_some hfind, haction⟩

/-- What an option wants is to set its value. -/
def Wants (option? : Option (OptionSpec σ)) (wanting : Wanting σ) : Prop :=
  match option?, wanting with
  | none, none => True
  | some option, some set => option.action = .value set
  | _, _ => False

/-- A read word, with what was done. -/
abbrev Spelled (g : Grammar σ) (spells : List (Given σ) → Option (OptionSpec σ) → Prop) (s s' : σ)
    (wanting : Wanting σ) : Prop :=
  ∃ given option?, spells given option? ∧ given.foldlM g.take s = .ok s' ∧ Wants option? wanting

theorem take_value {option : OptionSpec σ} {set : String → σ → Except Halt σ}
    (h : option.action = .value set) (v : String) (s : σ) :
    g.take s (.value option v) = set v s := by
  rw [take, h]

theorem take_flag {option : OptionSpec σ} {set : σ → Except Halt σ} (h : option.action = .flag set)
    (s : σ) : g.take s (.flag option) = set s := by
  rw [take, h]

theorem spelled_of_readShort {cs : List Char} {s s' : σ} {wanting : Wanting σ}
    (h : g.readShort cs s = .ok (s', wanting)) : Spelled g (g.SpellsLetters cs) s s' wanting := by
  induction cs generalizing s with
  | nil =>
    cases h
    exact ⟨[], none, .nil, rfl, trivial⟩
  | cons letter cs ih =>
    rw [readShort] at h
    split at h
    · cases h
    · next set hshort =>
      obtain ⟨option, hmem, hletter, haction⟩ := exists_of_short? hshort
      obtain ⟨mid, hset, h⟩ := bind_eq_ok.1 h
      obtain ⟨given, option?, hspells, hgiven, hwants⟩ := ih h
      refine ⟨.flag option :: given, option?, .flag hmem hletter haction hspells, ?_, hwants⟩
      rw [List.foldlM_cons, take_flag haction, hset]
      exact hgiven
    · next set hshort =>
      obtain ⟨option, hmem, hletter, haction⟩ := exists_of_short? hshort
      cases cs with
      | nil =>
        cases h
        exact ⟨[], some option, .wanting hmem hletter haction, rfl, haction⟩
      | cons c cs =>
        obtain ⟨mid, hset, heq⟩ := map_eq_ok.1 h
        cases heq
        have hdone (v : String) (hv : shortValue (c :: cs) = v) :
            [Given.value option v].foldlM g.take s = .ok s' := by
          rw [List.foldlM_cons, take_value haction, ← hv, hset]
          rfl
        by_cases hc : c = '='
        · subst hc
          exact ⟨_, none, .assigned hmem hletter haction, hdone _ rfl, trivial⟩
        · refine ⟨_, none, .attached hmem hletter haction hc, hdone _ ?_, trivial⟩
          rw [shortValue]
          simpa using hc

/-- A word is its name and what is after its first equals sign. -/
theorem split_attached (cs : List Char) : match attached? cs with
    | some v => cs = cs.takeWhile (· ≠ '=') ++ '=' :: v.toList
    | none => cs = cs.takeWhile (· ≠ '=') := by
  have hsplit : cs.takeWhile (· ≠ '=') ++ cs.dropWhile (· ≠ '=') = cs :=
    List.takeWhile_append_dropWhile
  unfold attached?
  cases hdrop : cs.dropWhile (· ≠ '=') with
  | nil =>
    rw [hdrop, List.append_nil] at hsplit
    exact hsplit.symm
  | cons c v =>
    have hc : c = '=' := by
      have hhead := List.head?_dropWhile_not (· ≠ '=') cs
      rw [hdrop] at hhead
      simpa using hhead
    rw [hdrop, hc] at hsplit
    simpa using hsplit.symm

theorem spelled_of_readLong {cs : List Char} {s s' : σ} {wanting : Wanting σ}
    (h : g.readLong cs s = .ok (s', wanting)) :
    Spelled g (g.SpellsOption ('-' :: '-' :: cs)) s s' wanting := by
  have hsplit := split_attached cs
  unfold readLong at h
  split at h
  · next set hlong hattached =>
    obtain ⟨option, hmem, hname, haction⟩ := exists_of_long? hlong
    obtain ⟨mid, hset, heq⟩ := map_eq_ok.1 h
    cases heq
    rw [hattached] at hsplit
    have hcs : cs = option.long.toList := by rw [hname, String.toList_ofList]; exact hsplit
    subst hcs
    refine ⟨_, none, .flag hmem haction, ?_, trivial⟩
    rw [List.foldlM_cons, take_flag haction, hset]
    rfl
  · next set v hlong hattached =>
    obtain ⟨option, hmem, hname, haction⟩ := exists_of_long? hlong
    obtain ⟨mid, hset, heq⟩ := map_eq_ok.1 h
    cases heq
    rw [hattached] at hsplit
    have hcs : cs = option.long.toList ++ '=' :: v.toList := by
      rw [hname, String.toList_ofList]; exact hsplit
    subst hcs
    refine ⟨_, none, .assigned hmem haction, ?_, trivial⟩
    rw [List.foldlM_cons, take_value haction, String.ofList_toList, hset]
    rfl
  · next set hlong hattached =>
    obtain ⟨option, hmem, hname, haction⟩ := exists_of_long? hlong
    cases h
    rw [hattached] at hsplit
    have hcs : cs = option.long.toList := by rw [hname, String.toList_ofList]; exact hsplit
    subst hcs
    exact ⟨[], some option, .wanting hmem haction, rfl, haction⟩
  · cases h
  · cases h

/-- A word that is no value begins with a dash and goes on. -/
theorem exists_of_not_isValueWord {word : String} (h : ¬ isValueWord word = true) :
    ∃ c cs, word.toList = '-' :: c :: cs := by
  simp only [isValueWord, Bool.or_eq_true, decide_eq_true_eq, Bool.not_eq_true', not_or,
    Bool.not_eq_false] at h
  obtain ⟨hne, hstarts⟩ := h
  have hprefix : ['-'] <+: word.toList := by simpa using hstarts
  obtain ⟨cs, hcs⟩ := hprefix
  cases cs with
  | nil => exact absurd (String.toList_inj.1 (hcs.symm.trans rfl)) hne
  | cons c cs => exact ⟨c, cs, hcs.symm⟩

theorem spelled_of_readOption {word : String} (hword : ¬ isValueWord word = true) {s s' : σ}
    {wanting : Wanting σ} (h : g.readOption word s = .ok (s', wanting)) :
    Spelled g (g.SpellsOption word.toList) s s' wanting := by
  obtain ⟨c, cs, hcs⟩ := exists_of_not_isValueWord hword
  rw [readOption, hcs] at h
  rw [hcs]
  by_cases hc : c = '-'
  · subst hc
    exact spelled_of_readLong h
  · have hshort : g.readShort (c :: cs) s = .ok (s', wanting) := by simpa [hc] using h
    obtain ⟨given, option?, hspells, hdone⟩ := spelled_of_readShort hshort
    exact ⟨given, option?, .letters (List.cons_ne_nil _ _) hspells, hdone⟩

/-! ## Lines -/

/-- **What is read is what the words spell.** -/
theorem spells_of_read {words : List String} {s s' : σ} {tail : Option (String × List String)}
    (h : g.read words s = .ok (s', tail)) :
    ∃ items, g.Spells words items tail ∧ items.foldlM g.take s = .ok s' := by
  fun_induction g.read words s with
  | case1 s =>
    cases h
    exact ⟨[], .nil, rfl⟩
  | case2 word rest s hcommand =>
    cases h
    exact ⟨[], .command hcommand, rfl⟩
  | case3 rest s hcommand =>
    obtain ⟨mid, hoperands, heq⟩ := map_eq_ok.1 h
    cases heq
    exact ⟨rest.map .operand, .operands rest, by rwa [List.foldlM_map]⟩
  | case4 word rest s hcommand hdashes hvalue ih =>
    obtain ⟨mid, hoperand, h⟩ := bind_eq_ok.1 h
    obtain ⟨items, hspells, hitems⟩ := ih mid h
    refine ⟨.operand word :: items, .operand hcommand hvalue hspells, ?_⟩
    rw [List.foldlM_cons, take, hoperand]
    exact hitems
  | case5 => cases h
  | case6 word rest s hcommand hdashes hvalue mid hoption ih =>
    obtain ⟨given, option?, hword, hgiven, hwants⟩ := spelled_of_readOption hvalue hoption
    obtain ⟨items, hspells, hitems⟩ := ih h
    cases option? with
    | some => exact hwants.elim
    | none => exact ⟨given ++ items, .option hword hspells, foldlM_append_eq_ok hgiven hitems⟩
  | case7 => cases h
  | case8 word s hcommand hdashes hvalue mid set hoption v rest hnext ih =>
    obtain ⟨given, option?, hword, hgiven, hwants⟩ := spelled_of_readOption hvalue hoption
    obtain ⟨mid', hset, h⟩ := bind_eq_ok.1 h
    obtain ⟨items, hspells, hitems⟩ := ih mid' h
    cases option? with
    | none => exact hwants.elim
    | some option =>
      refine ⟨given ++ .value option v :: items, .wanting hword hnext hspells,
        foldlM_append_eq_ok hgiven ?_⟩
      rw [List.foldlM_cons, take_value hwants, hset]
      exact hitems
  | case9 => cases h

end Grammar
end ControlPlane.CommandLine
