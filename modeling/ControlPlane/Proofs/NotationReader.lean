/-
What a variable's text is read as. With so much fuel whatever the grammar spells is
read (`complete`), and whatever is read is spelt there (`sound`), each by induction on
the fuel, for values, items and entries at once. So a text that is written in the
notation is read as what it means (`read_of_means`), and any other as it stands
(`read_of_not_means`).
-/
import ControlPlane.Proofs.Notation

namespace ControlPlane.Settings.Notation

/-! ## Values -/

theorem readValue?_space {before : List Char} (h : Space before) (fuel : Nat) (cs : List Char) :
    readValue? fuel (before ++ cs) = readValue? fuel cs := by
  cases fuel with
  | zero => rfl
  | succ fuel => simp only [readValue?, skipSpace_append h]

/-- Where nothing else begins, characters up to a separator are a bare value. -/
theorem readValue?_unmarked {cs : List Char} (h : Unmarked (skipSpace cs)) (fuel : Nat) :
    readValue? (fuel + 1) cs =
      some (bare (Text.trimChars ((skipSpace cs).takeWhile (!isSeparator ·))),
        skipSpace ((skipSpace cs).dropWhile (!isSeparator ·))) := by
  have hmark (mark : Char) (hmem : mark ∈ ['\x7b', '[', '"', '\'']) (rest : List Char) :
      skipSpace cs ≠ mark :: rest := fun heq => h.mark mark (by rw [heq]; rfl) hmem
  rw [readValue?]
  split
  · next rest heq => exact absurd ⟨rest, heq.symm⟩ h.notTrue
  · next rest heq => exact absurd ⟨rest, heq.symm⟩ h.notFalse
  · next heq => exact absurd heq (hmark _ (by simp) _)
  · next heq => exact absurd heq (hmark _ (by simp) _)
  · next heq => exact absurd heq (hmark _ (by simp) _)
  · next heq => exact absurd heq (hmark _ (by simp) _)
  · next heq => exact absurd heq (hmark _ (by simp) _)
  · rfl

/-- What is unmarked stays so when something follows that no mark and no word is
made of. -/
theorem Unmarked.append {cs tail : List Char} (h : Unmarked cs)
    (htail : ∀ c ∈ tail.head?, isSpace c = true ∨ c ∈ [',', ']', '\x7d']) :
    Unmarked (cs ++ tail) := by
  have hword {word : List Char} (hcs : ¬ word <+: cs)
      (hchars : ∀ c ∈ word, isSpace c = false ∧ c ∉ [',', ']', '\x7d']) :
      ¬ word <+: cs ++ tail := by
    intro hpre
    -- A word that is not within `cs` goes on into what follows, which has none of its letters.
    rcases List.prefix_or_prefix_of_prefix hpre (List.prefix_append cs tail) with hpre' | ⟨w, rfl⟩
    · exact hcs hpre'
    · cases w with
      | nil => exact hcs (by simp)
      | cons c w =>
        obtain ⟨tail', rfl⟩ := (List.prefix_append_right_inj cs).1 hpre
        obtain ⟨hspace, hstop⟩ := hchars c (by simp)
        rcases htail c rfl with hc | hc
        · cases hspace.symm.trans hc
        · exact hstop hc
  refine ⟨hword h.notTrue (by simp [isSpace]), hword h.notFalse (by simp [isSpace]), ?_⟩
  cases cs with
  | cons c cs => exact h.mark
  | nil =>
    intro c hc
    rcases htail c hc with hspace | hstop
    · rintro hmark
      have hnone : ∀ d ∈ ['\x7b', '[', '"', '\''], isSpace d = false := by simp [isSpace]
      cases (hnone c hmark).symm.trans hspace
    · have hnone : ∀ d ∈ [',', ']', '\x7d'], d ∉ ['\x7b', '[', '"', '\''] := by simp
      exact hnone c hstop

theorem Unmarked.of_ne {cs : List Char} (htrue : ∀ rest, cs ≠ 't' :: 'r' :: 'u' :: 'e' :: rest)
    (hfalse : ∀ rest, cs ≠ 'f' :: 'a' :: 'l' :: 's' :: 'e' :: rest)
    (hbrace : ∀ rest, cs ≠ '\x7b' :: rest) (hbracket : ∀ rest, cs ≠ '[' :: rest)
    (hquote : ∀ rest, cs ≠ '"' :: rest) (hsingle : ∀ rest, cs ≠ '\'' :: rest) : Unmarked cs where
  notTrue := fun ⟨rest, heq⟩ => htrue rest heq.symm
  notFalse := fun ⟨rest, heq⟩ => hfalse rest heq.symm
  mark c hc hmem := by
    obtain ⟨rest, hrest⟩ := List.head?_eq_some_iff.1 hc
    simp only [List.mem_cons, List.not_mem_nil, or_false] at hmem
    rcases hmem with rfl | rfl | rfl | rfl
    · exact hbrace rest hrest
    · exact hbracket rest hrest
    · exact hquote rest hrest
    · exact hsingle rest hrest

theorem mem_head?_of_takeWhile {p : Char → Bool} {cs : List Char} {c : Char}
    (h : c ∈ (cs.takeWhile p).head?) : c ∈ cs.head? := by
  obtain ⟨tail, htail⟩ := List.takeWhile_prefix p (l := cs)
  rw [← htail, List.head?_append, h]
  rfl

/-- What is taken off the front is unmarked if the whole is. -/
theorem Unmarked.takeWhile {cs : List Char} (h : Unmarked cs) (p : Char → Bool) :
    Unmarked (cs.takeWhile p) where
  notTrue hword := h.notTrue (hword.trans (List.takeWhile_prefix p))
  notFalse hword := h.notFalse (hword.trans (List.takeWhile_prefix p))
  mark c hc := h.mark c (mem_head?_of_takeWhile hc)

/-! ## Every value is read -/

theorem head_append_stops {after rest : List Char} (hafter : Space after) (hrest : Stops rest) :
    ∀ c ∈ (after ++ rest).head?, isSpace c = true ∨ c ∈ [',', ']', '\x7d'] := by
  cases after with
  | nil => exact fun c hc => .inr (hrest c hc)
  | cons d after =>
    rintro c hc
    cases hc
    exact .inl (hafter d (List.mem_cons_self ..))

theorem isSeparator_of_stop {c : Char} (h : c ∈ [',', ']', '\x7d']) : isSeparator c = true := by
  have hall : ∀ d ∈ [',', ']', '\x7d'], isSeparator d = true := by simp [isSeparator]
  exact hall c h

theorem takeWhile_core {core after rest : List Char}
    (hcore : ∀ c ∈ core, isSeparator c = false) (hafter : Space after) (hrest : Stops rest) :
    (core ++ (after ++ rest)).takeWhile (!isSeparator ·) = core ++ after ∧
      (core ++ (after ++ rest)).dropWhile (!isSeparator ·) = rest := by
  rw [← List.append_assoc]
  refine Text.takeWhile_append (fun c hc => ?_) fun c hc => ?_
  · rcases List.mem_append.1 hc with hc | hc
    · simp [hcore c hc]
    · simp [(space_cases (hafter c hc)).2.2]
  · simp [isSeparator_of_stop (hrest c hc)]

theorem readValue?_bare {core after rest : List Char} {t : Tree} (hcore : Unmarked core)
    (hhead : ∀ c ∈ core.head?, isSpace c = false) (hchars : ∀ c ∈ core, isSeparator c = false)
    (ht : Bare (Text.trimChars core) t) (hafter : Space after) (hrest : Stops rest) (fuel : Nat) :
    readValue? (fuel + 1) (core ++ (after ++ rest)) = some (t, rest) := by
  have hvalue : bare (Text.trimChars core) = t := bare_eq_iff.2 ht
  -- Without characters of its own a value has its space skipped in front of it.
  cases core with
  | nil =>
    have hskip : skipSpace (after ++ rest) = rest := skipSpace_of_stops hafter hrest
    have hnone : Space [] := fun _ hc => by cases hc
    obtain ⟨htake, hdrop⟩ := takeWhile_core hchars hnone hrest
    rw [List.nil_append, List.nil_append, List.nil_append] at htake
    rw [List.nil_append, List.nil_append] at hdrop
    have hunmarked : Unmarked (skipSpace ([] ++ (after ++ rest))) := by
      rw [List.nil_append, hskip]
      exact hcore.append fun c hc => .inr (hrest c hc)
    rw [readValue?_unmarked hunmarked, List.nil_append, hskip, htake, hdrop, hvalue,
      skipSpace_eq_self hrest.not_space]
  | cons c core =>
    have hskip : skipSpace (c :: core ++ (after ++ rest)) = c :: core ++ (after ++ rest) :=
      skipSpace_eq_self hhead
    obtain ⟨htake, hdrop⟩ := takeWhile_core hchars hafter hrest
    have hunmarked : Unmarked (skipSpace (c :: core ++ (after ++ rest))) := by
      rw [hskip]
      exact hcore.append (head_append_stops hafter hrest)
    rw [readValue?_unmarked hunmarked, hskip, htake, hdrop, trimChars_append_space hafter, hvalue,
      skipSpace_eq_self hrest.not_space]

/-- No value begins as a list ends. -/
theorem Spells.head_ne {core : List Char} {t : Tree} (h : Spells core t) :
    ∀ c ∈ core.head?, c ≠ ']' := by
  intro c hc
  cases h with
  | bare _ _ hchars _ =>
    rintro rfl
    cases hchars ']' (List.mem_of_mem_head? hc)
  | _ =>
    cases hc
    decide

theorem readItems?_comma {fuel : Nat} {cs rest : List Char} {t : Tree}
    (hcs : ∀ c ∈ cs.head?, c ≠ ']') (h : readValue? fuel cs = some (t, ',' :: rest)) :
    readItems? (fuel + 1) cs = (readItems? fuel rest).map fun p => (t :: p.1, p.2) := by
  rw [readItems?.eq_def]
  dsimp only
  split
  · exact absurd rfl (hcs ']' rfl)
  · simp only [h]

theorem readItems?_last {fuel : Nat} {cs rest : List Char} {t : Tree}
    (hcs : ∀ c ∈ cs.head?, c ≠ ']') (h : readValue? fuel cs = some (t, ']' :: rest)) :
    readItems? (fuel + 1) cs = some ([t], rest) := by
  rw [readItems?.eq_def]
  dsimp only
  split
  · exact absurd rfl (hcs ']' rfl)
  · simp only [h]

/-- What a list goes on with before its first comma or its end is an item. -/
theorem head_item {before core after : List Char} {t : Tree} (hbefore : Space before)
    (hcore : Spells core t) (hafter : Space after) {c : Char} {rest : List Char}
    (hne : before ++ (core ++ after) ≠ [] ∨ c ≠ ']') :
    ∀ d ∈ (before ++ (core ++ (after ++ c :: rest))).head?, d ≠ ']' := by
  have hspace {e : Char} (he : isSpace e = true) : e ≠ ']' := by
    rintro rfl
    cases he
  intro d hd
  cases before with
  | cons e before =>
    cases hd
    exact hspace (hbefore d (List.mem_cons_self ..))
  | nil =>
    cases core with
    | cons e core =>
      cases hd
      exact hcore.head_ne d rfl
    | nil =>
      cases after with
      | cons e after =>
        cases hd
        exact hspace (hafter d (List.mem_cons_self ..))
      | nil =>
        cases hd
        exact hne.resolve_left fun hne => hne rfl

/-- What is spelt is read, with so much fuel. A character pays for two calls: one for the
items or the entries that it begins, and one for the value among them. -/
structure Complete (fuel : Nat) : Prop where
  value {core after rest t} : Spells core t → 2 * core.length < fuel → Space after → Stops rest →
    readValue? fuel (core ++ (after ++ rest)) = some (t, rest)
  items {inner items} (rest) : SpellsItems inner items → 2 * inner.length ≤ fuel →
    readItems? fuel (inner ++ rest) = some (items, rest)
  entries {inner entries} (rest) : SpellsEntries inner entries → 2 * inner.length ≤ fuel →
    readEntries? fuel (inner ++ rest) = some (entries, rest)

namespace Complete

variable {fuel : Nat}

theorem spaced (ih : Complete fuel) {before core after rest : List Char} {t : Tree}
    (hbefore : Space before) (hcore : Spells core t) (hfuel : 2 * core.length < fuel)
    (hafter : Space after) (hrest : Stops rest) :
    readValue? fuel (before ++ (core ++ (after ++ rest))) = some (t, rest) := by
  rw [readValue?_space hbefore, ih.value hcore hfuel hafter hrest]

theorem value_succ (ih : Complete fuel) {core after rest : List Char} {t : Tree}
    (h : Spells core t) (hfuel : 2 * core.length < fuel + 1) (hafter : Space after)
    (hrest : Stops rest) : readValue? (fuel + 1) (core ++ (after ++ rest)) = some (t, rest) := by
  have hend : skipSpace (after ++ rest) = rest := skipSpace_of_stops hafter hrest
  cases h with
  | true =>
    have hread : readValue? (fuel + 1) ("true".toList ++ (after ++ rest)) =
      some (.bool true, skipSpace (after ++ rest)) := rfl
    rw [hread, hend]
  | false =>
    have hread : readValue? (fuel + 1) ("false".toList ++ (after ++ rest)) =
      some (.bool Bool.false, skipSpace (after ++ rest)) := rfl
    rw [hread, hend]
  | char c =>
    have hread : readValue? (fuel + 1) ('\'' :: c :: '\'' :: (after ++ rest)) =
      some (.text (String.ofList [c]), skipSpace (after ++ rest)) := rfl
    rw [List.cons_append, List.cons_append, List.cons_append, List.nil_append, hread, hend]
  | @quoted cs s hquoted =>
    have hread : readValue? (fuel + 1) ('"' :: (cs ++ '"' :: (after ++ rest))) =
      ((readString? ('"' :: (cs ++ '"' :: (after ++ rest)))).map fun p => (.text p.1, p.2)).map
        fun p => (p.1, skipSpace p.2) := rfl
    rw [List.cons_append, List.append_assoc, List.singleton_append, hread,
      readString?_of_quoted hquoted, Option.map_some, Option.map_some, hend]
  | @list cs items hitems =>
    have hread : readValue? (fuel + 1) ('[' :: (cs ++ (after ++ rest))) =
      ((readItems? fuel (cs ++ (after ++ rest))).map fun p => (.list p.1, p.2)).map
        fun p => (p.1, skipSpace p.2) := rfl
    rw [List.length_cons] at hfuel
    rw [List.cons_append, hread, ih.items _ hitems (by omega), Option.map_some, Option.map_some,
      hend]
  | @table cs entries hentries =>
    have hread : readValue? (fuel + 1) ('\x7b' :: (cs ++ (after ++ rest))) =
      ((readEntries? fuel (cs ++ (after ++ rest))).map fun p => (.ofEntries p.1, p.2)).map
        fun p => (p.1, skipSpace p.2) := rfl
    rw [List.length_cons] at hfuel
    rw [List.cons_append, hread, ih.entries _ hentries (by omega), Option.map_some,
      Option.map_some, hend]
  | bare hunmarked hhead hchars ht => exact readValue?_bare hunmarked hhead hchars ht hafter hrest _

theorem items_succ (ih : Complete fuel) {inner : List Char} {items : List Tree} (rest : List Char)
    (h : SpellsItems inner items) (hfuel : 2 * inner.length ≤ fuel + 1) :
    readItems? (fuel + 1) (inner ++ rest) = some (items, rest) := by
  cases h with
  | nil => rfl
  | @last before core after t hbefore hcore hafter hne =>
    simp only [List.length_append, List.length_cons] at hfuel
    have hread : readValue? fuel (before ++ (core ++ (after ++ ']' :: rest))) =
        some (t, ']' :: rest) :=
      ih.spaced hbefore hcore (by omega) hafter (by simp [Stops])
    simp only [List.append_assoc, List.cons_append, List.nil_append]
    exact readItems?_last (head_item hbefore hcore hafter (.inl hne)) hread
  | @cons before core after t cs items hbefore hcore hafter hitems =>
    simp only [List.length_append, List.length_cons] at hfuel
    have hread : readValue? fuel (before ++ (core ++ (after ++ ',' :: (cs ++ rest)))) =
        some (t, ',' :: (cs ++ rest)) :=
      ih.spaced hbefore hcore (by omega) hafter (by simp [Stops])
    simp only [List.append_assoc, List.cons_append]
    rw [readItems?_comma (head_item hbefore hcore hafter (.inr (by decide))) hread,
      ih.items rest hitems (by omega), Option.map_some]

/-- An entry of a table is read up to its value. -/
theorem readEntries?_name {front name back cs : List Char} {text : String} (hfront : Space front)
    (hname : Name name text) (hback : Space back) :
    (∀ c ∈ (front ++ (name ++ (back ++ '=' :: cs))).head?, c ≠ '\x7d') ∧
      readName? (skipSpace (front ++ (name ++ (back ++ '=' :: cs)))) =
        some (text, back ++ '=' :: cs) ∧
      skipSpace (back ++ '=' :: cs) = '=' :: cs := by
  obtain ⟨c, tail, rfl, hspace, hbrace⟩ := hname.head
  refine ⟨?_, ?_, ?_⟩
  · cases front with
    | nil =>
      rintro d hd
      cases hd
      exact hbrace
    | cons d front =>
      rintro e he
      cases he
      rintro rfl
      cases hfront '\x7d' (List.mem_cons_self ..)
  · have hskip : skipSpace (front ++ (c :: tail ++ (back ++ '=' :: cs))) =
        c :: tail ++ (back ++ '=' :: cs) := by
      rw [skipSpace_append hfront]
      exact skipSpace_eq_self (by simpa using hspace)
    rw [hskip]
    refine readName?_of_name hname ?_
    cases back with
    | nil => simp [isNameChar]
    | cons d back => simp [(space_cases (hback d (List.mem_cons_self ..))).2.1]
  · rw [skipSpace_append hback]
    exact skipSpace_eq_self (by simp [isSpace])

theorem readEntries?_comma {front name back cs rest : List Char} {text : String} {t : Tree}
    (hfront : Space front) (hname : Name name text) (hback : Space back)
    (h : readValue? fuel cs = some (t, ',' :: rest)) :
    readEntries? (fuel + 1) (front ++ (name ++ (back ++ '=' :: cs))) =
      (readEntries? fuel rest).map fun p => ((text, t) :: p.1, p.2) := by
  obtain ⟨hhead, hread, hequals⟩ := readEntries?_name hfront hname hback
  rw [readEntries?.eq_def]
  dsimp only
  split
  · next heq => exact absurd rfl (hhead '\x7d' (by rw [heq]; rfl))
  · simp only [hread, hequals, h]

theorem readEntries?_last {front name back cs rest : List Char} {text : String} {t : Tree}
    (hfront : Space front) (hname : Name name text) (hback : Space back)
    (h : readValue? fuel cs = some (t, '\x7d' :: rest)) :
    readEntries? (fuel + 1) (front ++ (name ++ (back ++ '=' :: cs))) =
      some ([(text, t)], rest) := by
  obtain ⟨hhead, hread, hequals⟩ := readEntries?_name hfront hname hback
  rw [readEntries?.eq_def]
  dsimp only
  split
  · next heq => exact absurd rfl (hhead '\x7d' (by rw [heq]; rfl))
  · simp only [hread, hequals, h]

theorem entries_succ (ih : Complete fuel) {inner : List Char} {entries : List (String × Tree)}
    (rest : List Char) (h : SpellsEntries inner entries) (hfuel : 2 * inner.length ≤ fuel + 1) :
    readEntries? (fuel + 1) (inner ++ rest) = some (entries, rest) := by
  cases h with
  | nil => rfl
  | @last front name back text before core after t hfront hname hback hbefore hcore hafter =>
    simp only [List.length_append, List.length_cons] at hfuel
    have hread : readValue? fuel (before ++ (core ++ (after ++ '\x7d' :: rest))) =
        some (t, '\x7d' :: rest) :=
      ih.spaced hbefore hcore (by omega) hafter (by simp [Stops])
    simp only [List.append_assoc, List.cons_append, List.nil_append]
    exact readEntries?_last hfront hname hback hread
  | @cons front name back text before core after t cs entries hfront hname hback hbefore hcore
      hafter hentries =>
    simp only [List.length_append, List.length_cons] at hfuel
    have hread : readValue? fuel (before ++ (core ++ (after ++ ',' :: (cs ++ rest)))) =
        some (t, ',' :: (cs ++ rest)) :=
      ih.spaced hbefore hcore (by omega) hafter (by simp [Stops])
    simp only [List.append_assoc, List.cons_append]
    rw [readEntries?_comma hfront hname hback hread, ih.entries rest hentries (by omega),
      Option.map_some]

end Complete

theorem complete (fuel : Nat) : Complete fuel := by
  induction fuel with
  | zero =>
    have hitems {inner : List Char} {items : List Tree} (h : SpellsItems inner items) :
        0 < inner.length := by
      cases h <;> simp only [List.length_append, List.length_cons] <;> omega
    have hentries {inner : List Char} {entries : List (String × Tree)}
        (h : SpellsEntries inner entries) : 0 < inner.length := by
      cases h <;> simp only [List.length_append, List.length_cons] <;> omega
    refine ⟨fun _ hfuel => absurd hfuel (Nat.not_lt_zero _), fun rest h hfuel => ?_,
      fun rest h hfuel => ?_⟩
    · have hpos := hitems h
      omega
    · have hpos := hentries h
      omega
  | succ fuel ih =>
    exact ⟨ih.value_succ, fun rest => ih.items_succ rest, fun rest => ih.entries_succ rest⟩

/-! ## What is read is a value -/

/-- What is read with so much fuel is spelt there. -/
structure Sound (fuel : Nat) : Prop where
  value {cs t rest} : readValue? fuel cs = some (t, rest) → ∃ before core after,
    cs = before ++ (core ++ (after ++ rest)) ∧ Space before ∧ Spells core t ∧ Space after
  items {cs items rest} : readItems? fuel cs = some (items, rest) → ∃ inner,
    cs = inner ++ rest ∧ SpellsItems inner items
  entries {cs entries rest} : readEntries? fuel cs = some (entries, rest) → ∃ inner,
    cs = inner ++ rest ∧ SpellsEntries inner entries

namespace Sound

variable {fuel : Nat}

/-- What begins a value as it is read, without the space around it. -/
theorem core_of_readValue? (ih : Sound fuel) {cs rest : List Char} {t : Tree}
    (h : readValue? (fuel + 1) cs = some (t, rest)) :
    ∃ core tail, skipSpace cs = core ++ tail ∧ skipSpace tail = rest ∧ Spells core t := by
  obtain ⟨-, -, -, hhead⟩ := exists_of_skipSpace cs
  rw [readValue?] at h
  simp only [Option.map_eq_some_iff, Prod.exists] at h
  obtain ⟨t', tail, h, heq⟩ := h
  cases heq
  split at h
  · next rest heq =>
    cases h
    exact ⟨_, _, heq, rfl, .true⟩
  · next rest heq =>
    cases h
    exact ⟨_, _, heq, rfl, .false⟩
  · next rest heq =>
    obtain ⟨⟨entries, _⟩, hentries, hpair⟩ := Option.map_eq_some_iff.1 h
    cases hpair
    obtain ⟨inner, rfl, hinner⟩ := ih.entries hentries
    exact ⟨_, _, heq, rfl, .table hinner⟩
  · next rest heq =>
    obtain ⟨⟨items, _⟩, hitems, hpair⟩ := Option.map_eq_some_iff.1 h
    cases hpair
    obtain ⟨inner, rfl, hinner⟩ := ih.items hitems
    exact ⟨_, _, heq, rfl, .list hinner⟩
  · next rest heq =>
    obtain ⟨⟨s, _⟩, hstring, hpair⟩ := Option.map_eq_some_iff.1 h
    cases hpair
    obtain ⟨inner, text, hcs, hquoted, rfl⟩ := quoted_of_readString? hstring
    exact ⟨'"' :: (inner ++ ['"']), _, by rw [heq, hcs]; simp, rfl, .quoted hquoted⟩
  · next c rest heq =>
    cases h
    exact ⟨_, _, heq, rfl, .char c⟩
  · cases h
  · next htrue hfalse hbrace hbracket hquote _ hsingle =>
    cases h
    have hunmarked : Unmarked (skipSpace cs) :=
      .of_ne htrue hfalse hbrace hbracket hquote hsingle
    refine ⟨_, _, List.takeWhile_append_dropWhile.symm, rfl, .bare (hunmarked.takeWhile _)
      (fun c hc => hhead c (mem_head?_of_takeWhile hc)) (fun c hc => ?_) (bare_eq_iff.1 rfl)⟩
    simpa using List.mem_takeWhile_imp hc

theorem value_succ (ih : Sound fuel) {cs rest : List Char} {t : Tree}
    (h : readValue? (fuel + 1) cs = some (t, rest)) : ∃ before core after,
      cs = before ++ (core ++ (after ++ rest)) ∧ Space before ∧ Spells core t ∧ Space after := by
  obtain ⟨core, tail, hcs, rfl, hcore⟩ := ih.core_of_readValue? h
  obtain ⟨before, hbefore, hsplit, -⟩ := exists_of_skipSpace cs
  obtain ⟨after, hafter, htail, -⟩ := exists_of_skipSpace tail
  exact ⟨before, core, after, by rw [← htail, ← hcs, ← hsplit], hbefore, hcore, hafter⟩

theorem items_succ (ih : Sound fuel) {cs rest : List Char} {items : List Tree}
    (h : readItems? (fuel + 1) cs = some (items, rest)) :
    ∃ inner, cs = inner ++ rest ∧ SpellsItems inner items := by
  rw [readItems?.eq_def] at h
  dsimp only at h
  split at h
  · cases h
    exact ⟨_, rfl, .nil⟩
  · next hne =>
    split at h
    · next hitem =>
      obtain ⟨⟨items, _⟩, hitems, hpair⟩ := Option.map_eq_some_iff.1 h
      cases hpair
      obtain ⟨before, core, after, rfl, hbefore, hcore, hafter⟩ := ih.value hitem
      obtain ⟨inner, rfl, hinner⟩ := ih.items hitems
      exact ⟨_, by simp, .cons hbefore hcore hafter hinner⟩
    · next hitem =>
      cases h
      obtain ⟨before, core, after, rfl, hbefore, hcore, hafter⟩ := ih.value hitem
      refine ⟨_, by simp, .last hbefore hcore hafter fun hnil => hne rest ?_⟩
      rw [← List.append_assoc core, ← List.append_assoc before, hnil]
      rfl
    · cases h

theorem entries_succ (ih : Sound fuel) {cs rest : List Char} {entries : List (String × Tree)}
    (h : readEntries? (fuel + 1) cs = some (entries, rest)) :
    ∃ inner, cs = inner ++ rest ∧ SpellsEntries inner entries := by
  obtain ⟨front, hfront, hcs, -⟩ := exists_of_skipSpace cs
  rw [readEntries?.eq_def] at h
  dsimp only at h
  split at h
  · cases h
    exact ⟨_, rfl, .nil⟩
  · split at h
    · cases h
    · next text tail hname =>
      obtain ⟨name, hskip, hname⟩ := name_of_readName? hname
      obtain ⟨back, hback, htail, -⟩ := exists_of_skipSpace tail
      split at h
      · next heq =>
        split at h
        · next hvalue =>
          obtain ⟨⟨entries, _⟩, hentries, hpair⟩ := Option.map_eq_some_iff.1 h
          cases hpair
          obtain ⟨before, core, after, rfl, hbefore, hcore, hafter⟩ := ih.value hvalue
          obtain ⟨inner, rfl, hinner⟩ := ih.entries hentries
          refine ⟨_, ?_, .cons hfront hname hback hbefore hcore hafter hinner⟩
          rw [hcs, hskip, htail, heq]
          simp
        · next hvalue =>
          cases h
          obtain ⟨before, core, after, rfl, hbefore, hcore, hafter⟩ := ih.value hvalue
          refine ⟨_, ?_, .last hfront hname hback hbefore hcore hafter⟩
          rw [hcs, hskip, htail, heq]
          simp
        · cases h
      · cases h

end Sound

theorem sound (fuel : Nat) : Sound fuel := by
  induction fuel with
  | zero => refine ⟨fun h => ?_, fun h => ?_, fun h => ?_⟩ <;> cases h
  | succ fuel ih => exact ⟨ih.value_succ, ih.items_succ, ih.entries_succ⟩

/-! ## The value of a text -/

theorem readValue?_iff_means {s : String} {t : Tree} :
    readValue? (2 * s.toList.length + 2) s.toList = some (t, []) ↔ Means s t := by
  constructor
  · intro h
    obtain ⟨before, core, after, hs, hbefore, hcore, hafter⟩ := (sound _).value h
    rw [List.append_nil] at hs
    exact ⟨before, core, after, hs, hbefore, hcore, hafter⟩
  · rintro ⟨before, core, after, hs, hbefore, hcore, hafter⟩
    have hlength : s.toList.length = before.length + (core.length + after.length) := by
      rw [hs, List.length_append, List.length_append]
    have hend : Stops [] := by simp [Stops]
    have hread := (complete (2 * s.toList.length + 2)).spaced hbefore hcore (by omega) hafter hend
    rwa [List.append_nil, ← hs] at hread

/-- A text written in the notation is read as what it means. -/
theorem read_of_means {s : String} {t : Tree} (h : Means s t) : read s = t := by
  rw [read, readValue?_iff_means.2 h]

/-- Any other text is read as it stands. -/
theorem read_of_not_means {s : String} (h : ∀ t, ¬ Means s t) : read s = .text s := by
  unfold read
  dsimp only
  split
  · next hread => exact absurd (readValue?_iff_means.1 hread) (h _)
  · rfl

/-- A text is read as it stands unless it means something else. -/
theorem read_eq_text_iff {s : String} : read s = .text s ↔ ∀ t, Means s t → t = .text s := by
  constructor
  · intro h t ht
    rw [← h, read_of_means ht]
  · intro h
    by_cases hmeans : ∃ t, Means s t
    · obtain ⟨t, ht⟩ := hmeans
      rw [read_of_means ht, h t ht]
    · exact read_of_not_means (not_exists.1 hmeans)

/-- Nothing that can be written means that there is no value. -/
theorem Means.ne_absent {s : String} {t : Tree} (h : Means s t) : t ≠ .absent := by
  obtain ⟨-, core, -, -, -, hcore, -⟩ := h
  cases hcore with
  | bare _ _ _ ht => cases ht <;> exact Tree.noConfusion
  | _ => exact Tree.noConfusion

theorem read_ne_absent (s : String) : read s ≠ .absent := by
  by_cases hmeans : ∃ t, Means s t
  · obtain ⟨t, ht⟩ := hmeans
    rw [read_of_means ht]
    exact ht.ne_absent
  · rw [read_of_not_means (not_exists.1 hmeans)]
    exact Tree.noConfusion

end ControlPlane.Settings.Notation
