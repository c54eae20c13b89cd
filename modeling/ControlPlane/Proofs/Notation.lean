/-
The notation that variables are written in. `Means` tells what the text of a variable
is, if it is written in that notation: a truth value, a number, a quoted text, a list
or a table, or anything else without brackets and quotes. Of the reader, this has what
it makes of space, of quoted texts and of names.
-/
import ControlPlane.Proofs.Hex
import ControlPlane.Proofs.Numeral

namespace ControlPlane.Settings.Notation

/-! ## The grammar -/

def Space (cs : List Char) : Prop := ∀ c ∈ cs, isSpace c = true

/-- What stands between two quotes, and the text that it is. -/
inductive Quoted : List Char → List Char → Prop
  | nil : Quoted [] []
  | plain {c cs s} : c ≠ '"' → c ≠ '\\' → c = '\t' ∨ ' ' ≤ c ∧ c ≠ '\x7f' → Quoted cs s →
      Quoted (c :: cs) (c :: s)
  | escape {e x cs s} : escaped? e = some x → Quoted cs s → Quoted ('\\' :: e :: cs) (x :: s)
  | code {mark digits x cs s} : (mark, digits.length) ∈ [('u', 4), ('U', 8)] →
      Hex.Digits 0 digits x.toNat → Quoted cs s → Quoted ('\\' :: mark :: (digits ++ cs)) (x :: s)

/-- The name of an entry. -/
inductive Name : List Char → String → Prop
  | quoted {cs s} : Quoted cs s → Name ('"' :: (cs ++ ['"'])) (String.ofList s)
  | bare {cs} : cs ≠ [] → (∀ c ∈ cs, isNameChar c = true) → Name cs (String.ofList cs)

/-- Nothing else begins here, so a bare value does. -/
structure Unmarked (cs : List Char) : Prop where
  notTrue : ¬ "true".toList <+: cs
  notFalse : ¬ "false".toList <+: cs
  mark : ∀ c ∈ cs.head?, c ∉ ['\x7b', '[', '"', '\'']

mutual

/-- The characters of a value, without the space around it. -/
inductive Spells : List Char → Tree → Prop
  | true : Spells "true".toList (.bool true)
  | false : Spells "false".toList (.bool false)
  | quoted {cs s} : Quoted cs s → Spells ('"' :: (cs ++ ['"'])) (.text (String.ofList s))
  | char (c) : Spells ['\'', c, '\''] (.text (String.ofList [c]))
  | list {cs items} : SpellsItems cs items → Spells ('[' :: cs) (.list items)
  | table {cs entries} : SpellsEntries cs entries → Spells ('\x7b' :: cs) (.ofEntries entries)
  | bare {cs t} : Unmarked cs → (∀ c ∈ cs.head?, isSpace c = Bool.false) →
      (∀ c ∈ cs, isSeparator c = Bool.false) → Bare (Text.trimChars cs) t → Spells cs t

/-- The items of a list, up to the bracket at its end. -/
inductive SpellsItems : List Char → List Tree → Prop
  | nil : SpellsItems [']'] []
  | last {before core after t} : Space before → Spells core t → Space after →
      before ++ (core ++ after) ≠ [] → SpellsItems (before ++ (core ++ (after ++ [']']))) [t]
  | cons {before core after t cs items} : Space before → Spells core t → Space after →
      SpellsItems cs items → SpellsItems (before ++ (core ++ (after ++ ',' :: cs))) (t :: items)

/-- The entries of a table, up to the brace at its end. -/
inductive SpellsEntries : List Char → List (String × Tree) → Prop
  | nil : SpellsEntries ['\x7d'] []
  | last {front name back text before core after t} : Space front → Name name text → Space back →
      Space before → Spells core t → Space after →
      SpellsEntries (front ++ (name ++ (back ++ '=' :: (before ++ (core ++ (after ++ ['\x7d']))))))
        [(text, t)]
  | cons {front name back text before core after t cs entries} : Space front → Name name text →
      Space back → Space before → Spells core t → Space after → SpellsEntries cs entries →
      SpellsEntries (front ++ (name ++ (back ++ '=' :: (before ++ (core ++ (after ++ ',' :: cs))))))
        ((text, t) :: entries)

end

/-- What a text means in the notation. -/
def Means (s : String) (t : Tree) : Prop :=
  ∃ before core after, s.toList = before ++ (core ++ after) ∧ Space before ∧ Spells core t ∧
    Space after

/-! ## Space -/

theorem skipSpace_append {before : List Char} (h : Space before) (cs : List Char) :
    skipSpace (before ++ cs) = skipSpace cs := List.dropWhile_append_of_pos h

theorem skipSpace_eq_self {cs : List Char} (h : ∀ c ∈ cs.head?, isSpace c = false) :
    skipSpace cs = cs := by
  cases cs with
  | nil => rfl
  | cons c cs =>
    have hc : isSpace c = false := h c rfl
    simp [skipSpace, hc]

theorem exists_of_skipSpace (cs : List Char) :
    ∃ before, Space before ∧ cs = before ++ skipSpace cs ∧
      ∀ c ∈ (skipSpace cs).head?, isSpace c = false := by
  refine ⟨cs.takeWhile isSpace, fun c hc => List.mem_takeWhile_imp hc,
    List.takeWhile_append_dropWhile.symm, fun c hc => ?_⟩
  have hhead := List.head?_dropWhile_not isSpace cs
  have hfirst : (cs.dropWhile isSpace).head? = some c := hc
  rw [hfirst] at hhead
  exact hhead

/-- A value ends before these, or at the end. -/
def Stops (rest : List Char) : Prop := ∀ c ∈ rest.head?, c ∈ [',', ']', '\x7d']

theorem Stops.not_space {rest : List Char} (h : Stops rest) :
    ∀ c ∈ rest.head?, isSpace c = false := by
  have hmarks : ∀ c ∈ [',', ']', '\x7d'], isSpace c = false := by simp [isSpace]
  exact fun c hc => hmarks c (h c hc)

theorem skipSpace_of_stops {after rest : List Char} (h : Space after) (hrest : Stops rest) :
    skipSpace (after ++ rest) = rest := by
  rw [skipSpace_append h, skipSpace_eq_self hrest.not_space]

/-- Space is blank, and of no name, and no separator. -/
theorem space_cases {c : Char} (h : isSpace c = true) :
    Text.isBlank c = true ∧ isNameChar c = false ∧ isSeparator c = false := by
  have hspaces : ∀ c ∈ [' ', '\t', '\n', '\x0c', '\r'],
      Text.isBlank c = true ∧ isNameChar c = false ∧ isSeparator c = false := by
    simp [Text.isBlank, Text.blankRanges, isNameChar, isSeparator]
  exact hspaces c (by simpa [isSpace] using h)

theorem trimChars_append_space {after : List Char} (h : Space after) (cs : List Char) :
    Text.trimChars (cs ++ after) = Text.trimChars cs := by
  have hafter : ∀ c ∈ after, Text.isBlank c = true := fun c hc => (space_cases (h c hc)).1
  rw [Text.trimChars, Text.trimChars, List.dropWhile_append]
  split
  · next hempty =>
    have hnil : cs.dropWhile Text.isBlank = [] := List.isEmpty_iff.1 hempty
    rw [hnil, List.dropWhile_eq_nil_iff.2 hafter]
  · rw [List.reverse_append, List.dropWhile_append_of_pos (by simpa using hafter)]

/-! ## Quoted texts -/

theorem readQuoted?_plain {c : Char} (hquote : c ≠ '"') (hslash : c ≠ '\\')
    (hc : c = '\t' ∨ ' ' ≤ c ∧ c ≠ '\x7f') (fuel : Nat) (cs : List Char) :
    readQuoted? (fuel + 1) (c :: cs) = (readQuoted? fuel cs).map fun p => (c :: p.1, p.2) := by
  have hallowed : (c == '\t' || (' ' ≤ c && c != '\x7f')) = true := by simpa using hc
  rw [readQuoted?, if_pos hallowed] <;> simp [hquote, hslash]

theorem readQuoted?_escape {e x : Char} (h : escaped? e = some x) (fuel : Nat) (cs : List Char) :
    readQuoted? (fuel + 1) ('\\' :: e :: cs) =
      (readQuoted? fuel cs).map fun p => (x :: p.1, p.2) := by
  have hmark (mark : Char) (hnone : escaped? mark = none) : e ≠ mark := by
    rintro rfl
    cases h.symm.trans hnone
  rw [readQuoted?, h]
  · rfl
  · simpa using hmark 'u' rfl
  · simpa using hmark 'U' rfl

theorem readQuoted?_code {mark : Char} {count : Nat} (h : (mark, count) ∈ [('u', 4), ('U', 8)])
    (fuel : Nat) (cs : List Char) : readQuoted? (fuel + 1) ('\\' :: mark :: cs) =
      (Hex.readChar? count cs).bind fun p =>
        (readQuoted? fuel p.2).map fun q => (p.1 :: q.1, q.2) := by
  simp only [List.mem_cons, List.not_mem_nil, or_false, Prod.mk.injEq] at h
  rcases h with ⟨rfl, rfl⟩ | ⟨rfl, rfl⟩ <;> rfl

theorem readQuoted?_of_quoted {cs s : List Char} (h : Quoted cs s) {fuel : Nat}
    (hfuel : cs.length < fuel) (rest : List Char) :
    readQuoted? fuel (cs ++ '"' :: rest) = some (s, rest) := by
  induction h generalizing fuel with
  | nil =>
    obtain ⟨fuel, rfl⟩ : ∃ k, fuel = k + 1 := ⟨fuel - 1, by omega⟩
    rfl
  | plain hquote hslash hc _ ih =>
    obtain ⟨fuel, rfl⟩ : ∃ k, fuel = k + 1 := ⟨fuel - 1, by omega⟩
    rw [List.cons_append, readQuoted?_plain hquote hslash hc,
      ih (by simpa using hfuel)]
    rfl
  | escape he _ ih =>
    rw [List.length_cons, List.length_cons] at hfuel
    obtain ⟨fuel, rfl⟩ : ∃ k, fuel = k + 1 := ⟨fuel - 1, by omega⟩
    rw [List.cons_append, List.cons_append, readQuoted?_escape he, ih (by omega)]
    rfl
  | code hmark hdigits _ ih =>
    rw [List.length_cons, List.length_cons, List.length_append] at hfuel
    obtain ⟨fuel, rfl⟩ : ∃ k, fuel = k + 1 := ⟨fuel - 1, by omega⟩
    rw [List.cons_append, List.cons_append, List.append_assoc, readQuoted?_code hmark,
      Hex.readChar?_eq_some_iff.2 ⟨_, rfl, rfl, hdigits⟩, Option.bind_some, ih (by omega)]
    rfl

/-- A character of a quoted text, in one of the ways to write it. -/
def Adds (spelling : List Char) (x : Char) : Prop :=
  ∀ ⦃cs s⦄, Quoted cs s → Quoted (spelling ++ cs) (x :: s)

/-- One turn of the reader meets the closing quote or reads one character. -/
theorem readQuoted?_cases {fuel : Nat} {c : Char} {cs s rest : List Char}
    (h : readQuoted? (fuel + 1) (c :: cs) = some (s, rest)) :
    (c = '"' ∧ s = [] ∧ rest = cs) ∨ ∃ spelling tail x s', c :: cs = spelling ++ tail ∧
      Adds spelling x ∧ readQuoted? fuel tail = some (s', rest) ∧ s = x :: s' := by
  by_cases hquote : c = '"'
  · subst hquote
    cases h
    exact .inl ⟨rfl, rfl, rfl⟩
  · refine .inr ?_
    have hcode {mark : Char} {count : Nat} {tail : List Char}
        (hmark : (mark, count) ∈ [('u', 4), ('U', 8)]) (hcs : c :: cs = '\\' :: mark :: tail) :
        ∃ spelling tail x s', c :: cs = spelling ++ tail ∧ Adds spelling x ∧
          readQuoted? fuel tail = some (s', rest) ∧ s = x :: s' := by
      rw [hcs, readQuoted?_code hmark] at h
      obtain ⟨⟨x, tail'⟩, hchar, hread⟩ := Option.bind_eq_some_iff.1 h
      obtain ⟨digits, rfl, rfl, hdigits⟩ := Hex.readChar?_eq_some_iff.1 hchar
      obtain ⟨⟨s', rest'⟩, htail, heq⟩ := Option.map_eq_some_iff.1 hread
      cases heq
      refine ⟨'\\' :: mark :: digits, tail', x, s', hcs, fun inner t hinner => ?_, htail, rfl⟩
      exact .code hmark hdigits hinner
    by_cases hslash : c = '\\'
    · subst hslash
      cases cs with
      | nil => cases h
      | cons e cs =>
        by_cases hshort : e = 'u'
        · exact hcode (List.mem_cons_self ..) (by rw [hshort])
        · by_cases hlong : e = 'U'
          · exact hcode (List.mem_cons_of_mem _ (List.mem_cons_self ..)) (by rw [hlong])
          · cases he : escaped? e with
            | none =>
              rw [readQuoted?, he] at h
              · cases h
              · simpa using hshort
              · simpa using hlong
            | some x =>
              rw [readQuoted?_escape he] at h
              obtain ⟨⟨s', rest'⟩, htail, heq⟩ := Option.map_eq_some_iff.1 h
              cases heq
              exact ⟨['\\', e], cs, x, s', rfl, fun _ _ => .escape he, htail, rfl⟩
    · by_cases hc : c = '\t' ∨ ' ' ≤ c ∧ c ≠ '\x7f'
      · rw [readQuoted?_plain hquote hslash hc] at h
        obtain ⟨⟨s', rest'⟩, htail, heq⟩ := Option.map_eq_some_iff.1 h
        cases heq
        exact ⟨[c], cs, c, s', rfl, fun _ _ => .plain hquote hslash hc, htail, rfl⟩
      · have hrefused : (c == '\t' || (' ' ≤ c && c != '\x7f')) = false := by simpa using hc
        rw [readQuoted?, hrefused] at h
        · cases h
        all_goals simp [hquote, hslash]

theorem quoted_of_readQuoted? {fuel : Nat} {cs s rest : List Char}
    (h : readQuoted? fuel cs = some (s, rest)) :
    ∃ inner, cs = inner ++ '"' :: rest ∧ Quoted inner s := by
  induction fuel generalizing cs s with
  | zero => cases h
  | succ fuel ih =>
    cases cs with
    | nil => cases h
    | cons c cs =>
      rcases readQuoted?_cases h with
        ⟨rfl, rfl, rfl⟩ | ⟨spelling, tail, x, s', hcs, hadds, htail, rfl⟩
      · exact ⟨[], rfl, .nil⟩
      · obtain ⟨inner, rfl, hquoted⟩ := ih htail
        exact ⟨spelling ++ inner, by rw [hcs, List.append_assoc], hadds hquoted⟩

theorem readString?_of_quoted {cs s : List Char} (h : Quoted cs s) (rest : List Char) :
    readString? ('"' :: (cs ++ '"' :: rest)) = some (String.ofList s, rest) := by
  have hfuel : cs.length < (cs ++ '"' :: rest).length + 1 := by
    rw [List.length_append]
    omega
  rw [readString?, readQuoted?_of_quoted h hfuel]
  rfl

theorem quoted_of_readString? {cs rest : List Char} {s : String}
    (h : readString? cs = some (s, rest)) :
    ∃ inner text, cs = '"' :: (inner ++ '"' :: rest) ∧ Quoted inner text ∧
      s = String.ofList text := by
  unfold readString? at h
  split at h
  · obtain ⟨⟨text, rest'⟩, hread, heq⟩ := Option.map_eq_some_iff.1 h
    cases heq
    obtain ⟨inner, rfl, hquoted⟩ := quoted_of_readQuoted? hread
    exact ⟨inner, text, rfl, hquoted, rfl⟩
  · cases h

/-! ## Names -/

/-- A name begins with something that is neither space nor a brace. -/
theorem Name.head {name : List Char} {text : String} (h : Name name text) :
    ∃ c cs, name = c :: cs ∧ isSpace c = false ∧ c ≠ '\x7d' := by
  cases h with
  | quoted => exact ⟨_, _, rfl, by decide, by decide⟩
  | @bare cs hne hchars =>
    obtain ⟨c, cs, rfl⟩ := List.exists_cons_of_ne_nil hne
    have hc : isNameChar c = true := hchars c (List.mem_cons_self ..)
    refine ⟨c, cs, rfl, ?_, ?_⟩
    · cases hspace : isSpace c with
      | false => rfl
      | true => cases hc.symm.trans (space_cases hspace).2.1
    · rintro rfl
      cases hc

/-- A name is read up to what is neither of it nor a quote. -/
theorem readName?_of_name {name rest : List Char} {text : String} (h : Name name text)
    (hrest : ∀ c ∈ rest.head?, isNameChar c = false) :
    readName? (name ++ rest) = some (text, rest) := by
  cases h with
  | quoted hquoted =>
    rw [List.cons_append, List.append_assoc, List.singleton_append, readName?]
    exact readString?_of_quoted hquoted rest
  | @bare cs hne hchars =>
    obtain ⟨c, cs, rfl⟩ := List.exists_cons_of_ne_nil hne
    have hquote : c ≠ '"' := by
      rintro rfl
      cases hchars '"' (List.mem_cons_self ..)
    obtain ⟨htake, hdrop⟩ := Text.takeWhile_append hchars hrest
    rw [readName?, htake, hdrop]
    · rfl
    · simp [hquote]

theorem name_of_readName? {cs rest : List Char} {text : String}
    (h : readName? cs = some (text, rest)) : ∃ name, cs = name ++ rest ∧ Name name text := by
  unfold readName? at h
  split at h
  · obtain ⟨inner, s, hcs, hquoted, rfl⟩ := quoted_of_readString? h
    exact ⟨_, by rw [hcs]; simp, .quoted hquoted⟩
  · dsimp only at h
    split at h
    · cases h
    · next hne =>
      cases h
      have hchars : ∀ c ∈ cs.takeWhile isNameChar, isNameChar c = true := fun c hc =>
        List.mem_takeWhile_imp hc
      exact ⟨_, List.takeWhile_append_dropWhile.symm, .bare (by simpa using hne) hchars⟩

end ControlPlane.Settings.Notation
