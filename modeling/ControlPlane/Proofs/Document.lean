/-
A file that gives one setting. Its name stands in a line, by itself or indented below
the name of its section, and its value is a quoted text on the same line. The tokens of
such a file are followed one by one (`run?_single`, `run?_nested`), and it says just
that one thing (`ofText?_entry_single`, `ofText?_entry_nested`).
-/
import ControlPlane.Proofs.Decimal
import ControlPlane.Proofs.Quotation
import ControlPlane.Settings.File

namespace ControlPlane.Yaml

/-! ## Letters -/

/-- Characters of the names of settings. -/
def IsLetter (c : Char) : Prop := 'a' ≤ c ∧ c ≤ 'z' ∨ c = '_'

/-- A name that a file may hold in front of a colon. -/
structure Word (name : List Char) : Prop where
  ne_nil : name ≠ []
  letters : ∀ c ∈ name, IsLetter c
  short : name.length ≤ keyReach

instance (c : Char) : Decidable (IsLetter c) :=
  inferInstanceAs (Decidable (('a' ≤ c ∧ c ≤ 'z') ∨ c = '_'))

theorem IsLetter.ne {c d : Char} (h : IsLetter c) (hd : ¬ IsLetter d) : c ≠ d := by
  rintro rfl
  exact hd h

theorem IsLetter.ofLine {c : Char} (h : IsLetter c) : OfLine c := by
  rcases h with ⟨hlow, hhigh⟩ | rfl
  · exact ofLine_of_ascii (Nat.le_trans (by decide) hlow) (Nat.le_trans hhigh (by decide))
  · exact ofLine_of_ascii (by decide) (by decide)

theorem IsLetter.not_blank {c : Char} (h : IsLetter c) : isBlank c = false := by
  simp [isBlank, h.ne (d := ' ') (by decide), h.ne (d := '\t') (by decide)]

/-- Neither space nor a comment begins here. -/
def Solid (rest : List Char) : Prop :=
  ∀ c ∈ rest.head?, isBlank c = false ∧ isBreak c = false ∧ c ≠ '#' ∧ c ≠ '\ufeff'

theorem Cursor.skipComment_of_solid {c : Cursor} (h : Solid c.rest) : c.skipComment = c := by
  unfold skipComment
  split
  · next heq => exact absurd rfl (h '#' (by rw [heq]; rfl)).2.2.1
  · rfl

/-! ## Names -/

variable {name tail rest blanks : List Char} {line column : Nat}

/-- After a name that begins a line, its colon. -/
theorem takeWord?_word (hletters : ∀ c ∈ name, IsLetter c) (htail : endsWord tail = true) :
    takeWord? false (name ++ ':' :: tail) = some (name, ':' :: tail) := by
  induction name with
  | nil => simp [takeWord?, htail]
  | cons c name ih =>
    obtain ⟨hc, hname⟩ := List.forall_mem_cons.1 hletters
    have hcolon : c ≠ ':' := hc.ne (by decide)
    have hends (rest : List Char) : endsWord (c :: rest) = false := by
      rw [endsWord_eq_isBlank hc.ofLine, hc.not_blank]
    rw [List.cons_append, takeWord?.eq_def]
    simp [hends, hcolon, ih hname]

theorem Word.exists_cons (h : Word name) : ∃ c cs, name = c :: cs ∧ IsLetter c := by
  obtain ⟨c, cs, rfl⟩ := List.exists_cons_of_ne_nil h.ne_nil
  exact ⟨c, cs, rfl, h.letters c (List.mem_cons_self ..)⟩

theorem Word.solid (h : Word name) (rest : List Char) : Solid (name ++ rest) := by
  obtain ⟨c, cs, rfl, hc⟩ := h.exists_cons
  rintro d hd
  cases hd
  exact ⟨hc.not_blank, hc.ofLine.2.1, hc.ne (by decide), hc.ne (by decide)⟩

/-- No mark of a document begins with a letter. -/
theorem not_atMarker {c : Cursor} {x : Char} (h : c.rest.head? = some x) (hdash : x ≠ '-')
    (hdot : x ≠ '.') : c.atStartMarker = false ∧ c.atEndMarker = false := by
  unfold Cursor.atStartMarker Cursor.atEndMarker
  constructor
  · split
    · next heq =>
      rw [heq] at h
      cases h
      exact absurd rfl hdash
    · exact Bool.and_false _
  · split
    · next heq =>
      rw [heq] at h
      cases h
      exact absurd rfl hdot
    · exact Bool.and_false _

theorem readPlain?_word (hname : Word name) (htail : endsWord tail = true) (fuel : Nat)
    (indentation : Nat) : readPlain? false indentation (fuel + 1) [] {}
      ⟨name ++ ':' :: tail, line, column⟩ =
        some ⟨name, false, ⟨':' :: tail, line, column + name.length⟩⟩ := by
  obtain ⟨c, cs, rfl, hc⟩ := hname.exists_cons
  have hmarker : (⟨c :: cs ++ ':' :: tail, line, column⟩ : Cursor).atMarker = false := by
    obtain ⟨hstart, hend⟩ := not_atMarker (c := ⟨c :: cs ++ ':' :: tail, line, column⟩) rfl
      (hc.ne (by decide)) (hc.ne (by decide))
    rw [Cursor.atMarker, hstart, hend]
    rfl
  have hcomment : ((c :: cs ++ ':' :: tail).head? == some '#') = false := by
    simpa using hc.ne (by decide)
  have hgap : Gap.skip indentation {} ⟨':' :: tail, line, column + (c :: cs).length⟩ =
      ({}, ⟨':' :: tail, line, column + (c :: cs).length⟩) := rfl
  rw [readPlain?, hmarker, hcomment, takeWord?_word hname.letters htail]
  simp only [Cursor.moveTo_append, hgap]
  rfl

/-! ## Space -/

namespace Layout

/-- Blanks are skipped up to something solid. -/
theorem skipSpace_go_blanks (l : Layout) (hblanks : ∀ c ∈ blanks, c = ' ') (hrest : Solid rest)
    {fuel : Nat} (hfuel : (blanks ++ rest).length ≤ fuel) (allowed : Bool) :
    skipSpace.go l fuel ⟨blanks ++ rest, line, column⟩ allowed =
      (⟨rest, line, column + blanks.length⟩, allowed) := by
  cases fuel with
  | zero =>
    rw [List.length_append] at hfuel
    obtain rfl := List.eq_nil_of_length_eq_zero (show blanks.length = 0 by omega)
    rfl
  | succ fuel =>
    have hmark : (blanks ++ rest).head? ≠ some '\ufeff' := by
      cases blanks with
      | nil => exact fun h => (hrest _ h).2.2.2 rfl
      | cons b blanks => simp [hblanks b (List.mem_cons_self ..)]
    have hmark' : ((blanks ++ rest).head? == some '\ufeff') = false := by simpa using hmark
    have hdrop (p : Char → Bool) (hp : p ' ' = true) (hp' : ∀ c, isBlank c = false → p c = false) :
        (blanks ++ rest).dropWhile p = rest :=
      (Text.takeWhile_append (fun c hc => by rw [hblanks c hc, hp])
        fun c hc => hp' c (hrest c hc).1).2
    simp only [skipSpace.go, hmark', Bool.and_false, Bool.false_eq_true, if_false]
    have hspace : ∀ c, isBlank c = false →
        (c == ' ' || ((l.inFlow || !allowed) && c == '\t')) = false := by
      intro c hc
      simp only [isBlank, Bool.or_eq_false_iff] at hc
      simp [hc]
    rw [hdrop _ (by simp) hspace, Cursor.moveTo_append, Cursor.skipComment_of_solid hrest]
    cases rest with
    | nil => rfl
    | cons c rest =>
      have hc : isBreak c = false := (hrest c rfl).2.1
      simp [hc]

/-- A layout outside of brackets in which nothing may be a key. -/
def outside (tokens : List Token) (indent : Int) (indents : List Int) (keyAllowed : Bool)
    (cursor : Cursor) : Layout where
  cursor := cursor
  tokens := tokens.toArray
  keyAllowed := keyAllowed
  indent := indent
  indents := indents

variable {tokens : List Token} {indent : Int} {indents : List Int} {allowed : Bool}

theorem skipSpace_solid {l : Layout} (h : Solid l.cursor.rest) : l.skipSpace = l := by
  have hgo : skipSpace.go l l.cursor.rest.length l.cursor l.keyAllowed =
      (l.cursor, l.keyAllowed) :=
    skipSpace_go_blanks l (List.forall_mem_nil _) h (Nat.le_refl _) _
  rw [skipSpace, hgo]

theorem skipSpace_blanks (blanks rest : List Char) (hblanks : ∀ c ∈ blanks, c = ' ')
    (hrest : Solid rest) :
    (outside tokens indent indents allowed ⟨blanks ++ rest, line, column⟩).skipSpace =
      outside tokens indent indents allowed ⟨rest, line, column + blanks.length⟩ := by
  rw [skipSpace, outside, skipSpace_go_blanks _ hblanks hrest (Nat.le_refl _)]
  rfl

/-- After the end of a line a key may begin. -/
theorem skipSpace_line (blanks rest : List Char) (hblanks : ∀ c ∈ blanks, c = ' ')
    (hrest : Solid rest) :
    (outside tokens indent indents allowed ⟨'\n' :: (blanks ++ rest), line, column⟩).skipSpace =
      outside tokens indent indents true ⟨rest, line + 1, blanks.length⟩ := by
  have hgo (l : Layout) (hflow : l.inFlow = false) :
      skipSpace.go l ('\n' :: (blanks ++ rest)).length ⟨'\n' :: (blanks ++ rest), line, column⟩
        allowed = skipSpace.go l (blanks ++ rest).length ⟨blanks ++ rest, line + 1, 0⟩ true := by
    have hmark : (('\n' :: (blanks ++ rest)).head? == some '\ufeff') = false := rfl
    have hdrop (p : Char → Bool) (hp : p '\n' = false) :
        ('\n' :: (blanks ++ rest)).dropWhile p = '\n' :: (blanks ++ rest) := by
      simp [hp]
    have hmove : (⟨'\n' :: (blanks ++ rest), line, column⟩ : Cursor).moveTo
        ('\n' :: (blanks ++ rest)) = ⟨'\n' :: (blanks ++ rest), line, column⟩ :=
      Cursor.moveTo_append [] _ _ _
    rw [List.length_cons, skipSpace.go, hmark, Bool.and_false]
    simp only [Bool.false_eq_true, if_false]
    rw [hdrop _ (by simp), hmove]
    simp [Cursor.skipComment, Cursor.newline, isBreak, hflow]
  rw [skipSpace, outside, hgo _ rfl, skipSpace_go_blanks _ hblanks hrest (Nat.le_refl _),
    Nat.zero_add]
  rfl

/-! ## Tokens -/

/-- One token is read after space. -/
theorem run?_token {l m n : Layout} {c : Char} (hspace : l.skipSpace.expireKeys? = some m)
    (hrest : m.cursor.rest = c :: rest)
    (htoken : (m.unroll m.cursor.column).token? c rest = some n) (fuel : Nat) :
    run? (fuel + 1) l = run? fuel n := by
  rw [run?, hspace]
  simp only [hrest, htoken]

/-- No block ends where it is indented as much. -/
theorem unroll_of_le {l : Layout} {column : Int} (h : l.indent ≤ column) :
    l.unroll column = l := by
  have hlt : ¬ column < l.indent := Int.not_lt.2 h
  unfold unroll
  split
  · rfl
  · cases hl : l.indents with
    | nil => rw [unroll.go, ← hl]
    | cons outer indents => rw [unroll.go, if_neg hlt, ← hl]

/-- A token goes in front of those that have been read since. -/
theorem insertIdxIfInBounds_size (tokens more : List Token) (t : Token) :
    (tokens ++ more).toArray.insertIdxIfInBounds tokens.length t =
      (tokens ++ t :: more).toArray := by
  have hsize : tokens.length ≤ (tokens ++ more).toArray.size := by simp
  rw [Array.insertIdxIfInBounds, dif_pos hsize]
  refine Array.toList_inj.1 ?_
  rw [Array.toList_insertIdx]
  clear hsize
  induction tokens with
  | nil => rfl
  | cons t' tokens ih => exact congrArg (t' :: ·) ih

theorem not_isIndicator {c : Char} (h : IsLetter c) : isIndicator c = false := by
  have hmarks : ∀ d ∈ "-?:,[]#&*!|>'\"%@".toList, ¬ IsLetter d := by simp [IsLetter]
  have htick : c.toNat ≠ 0x60 := by
    rintro hc
    rcases h with ⟨hlow, -⟩ | rfl
    · have hlow' : 0x61 ≤ c.toNat := hlow
      omega
    · cases hc
  simp only [isIndicator, Bool.or_eq_false_iff, decide_eq_false_iff_not, beq_eq_false_iff_ne]
  exact ⟨⟨⟨fun hc => hmarks c hc h, h.ne (by decide)⟩, h.ne (by decide)⟩, htick⟩

/-- A name is read where a letter stands. -/
theorem token?_letter {l : Layout} {c : Char} (hc : IsLetter c) (hl : l.cursor.rest = c :: rest) :
    l.token? c rest = l.plain? := by
  obtain ⟨hstart, hend⟩ := not_atMarker (c := l.cursor) (by rw [hl]; rfl) (hc.ne (by decide))
    (hc.ne (by decide))
  have hplain : l.beginsPlain c rest = true := by
    have hends : endsWord [c] = false := by rw [endsWord_eq_isBlank hc.ofLine, hc.not_blank]
    rw [beginsPlain, hends, not_isIndicator hc]
    rfl
  have hne (d : Char) (hd : ¬ IsLetter d) : (c == d) = false := by simpa using hc.ne hd
  rw [token?, hstart, hend, hplain]
  simp only [hne '%' (by decide), hne '[' (by decide), hne '\x7b' (by decide), hne ']' (by decide),
    hne '\x7d' (by decide), hne ',' (by decide), hne '-' (by decide), hne '?' (by decide),
    hne ':' (by decide), hne '*' (by decide), hne '&' (by decide), hne '!' (by decide),
    hne '|' (by decide), hne '>' (by decide), hne '\'' (by decide), hne '"' (by decide),
    Bool.false_and, Bool.or_self, Bool.false_eq_true, if_false, if_true]

theorem token?_colon {l : Layout} (hl : l.cursor.rest = ':' :: rest)
    (hrest : endsWord rest = true) : l.token? ':' rest = l.value? := by
  obtain ⟨hstart, hend⟩ := not_atMarker (c := l.cursor) (by rw [hl]; rfl) (by decide) (by decide)
  simp [token?, hstart, hend, hrest]

theorem token?_quote {l : Layout} {quote : Char} (h : IsQuote quote)
    (hl : l.cursor.rest = quote :: rest) : l.token? quote rest = l.quoted? quote := by
  rcases h with rfl | rfl
  all_goals
    obtain ⟨hstart, hend⟩ := not_atMarker (c := l.cursor) (by rw [hl]; rfl) (by decide) (by decide)
    simp [token?, hstart, hend]

/-! ## One entry -/

/-- The tokens of a block's first name, up to its value. -/
def nameTokens (name : String) : List Token := [.blockMapping, .key, .scalar name true, .value]

/-- Where a name has been read and its colon comes next. -/
def atColon (tokens : List Token) (indent : Int) (indents : List Int) (name tail : List Char)
    (line column : Nat) : Layout :=
  { outside (tokens ++ [.scalar (String.ofList name) true]) indent indents false
      ⟨':' :: tail, line, column + name.length⟩ with
    candidate := some ⟨tokens.length, line, column, false⟩ }

theorem plain?_word (hname : Word name) (htail : endsWord tail = true) (hindent : indent < column) :
    (outside tokens indent indents true ⟨name ++ ':' :: tail, line, column⟩).plain? =
      some (atColon tokens indent indents name tail line column) := by
  -- Only what begins a line of the block around it has to be a key.
  have hrequired : (indent == (column : Int)) = false := by simpa using Int.ne_of_lt hindent
  simp [plain?, saveKey?, dropKey?, inFlow, scalar, emit, readPlain?_word hname htail, hrequired,
    atColon, outside]

/-- A name's colon does not come too late for it to be a key. -/
theorem expireKeys?_atColon (hname : Word name) :
    (atColon tokens indent indents name tail line column).skipSpace.expireKeys? =
      some (atColon tokens indent indents name tail line column) := by
  have hsolid : Solid (':' :: tail) := by
    rintro c hc
    cases hc
    decide
  have hspace : (atColon tokens indent indents name tail line column).skipSpace =
      atColon tokens indent indents name tail line column :=
    skipSpace_solid hsolid
  have hreach : ¬ keyReach < name.length := Nat.not_lt.2 hname.short
  rw [hspace]
  simp [expireKeys?, expire?, stillPossible?, atColon, outside, hreach]

theorem value?_atColon (hindent : indent < column) :
    (atColon tokens indent indents name tail line column).value? =
      some (outside (tokens ++ nameTokens (String.ofList name)) column (indent :: indents) false
        ⟨tail, line, column + name.length + 1⟩) := by
  simp only [value?, atColon, outside, insert, roll, inFlow, insertIdxIfInBounds_size]
  simp [emitHere, emit, hindent, Cursor.advance, nameTokens]

/-- A name that is indented more than what is around it begins a block there. -/
theorem run?_name {l : Layout} (hname : Word name) (htail : endsWord tail = true)
    (hindent : indent < column) (hspace : l.skipSpace =
      outside tokens indent indents true ⟨name ++ ':' :: tail, line, column⟩) (fuel : Nat) :
    run? (fuel + 2) l =
      run? fuel (outside (tokens ++ nameTokens (String.ofList name)) column (indent :: indents)
        false ⟨tail, line, column + name.length + 1⟩) := by
  have hle : indent ≤ column := Int.le_of_lt hindent
  have hread : (outside tokens indent indents true ⟨name ++ ':' :: tail, line, column⟩).plain? =
      some (atColon tokens indent indents name tail line column) :=
    plain?_word hname htail hindent
  have hreach : (atColon tokens indent indents name tail line column).skipSpace.expireKeys? = _ :=
    expireKeys?_atColon hname
  have hhere : indent ≤ ((column + name.length : Nat) : Int) := by omega
  obtain ⟨c, cs, rfl, hc⟩ := hname.exists_cons
  have hexpire : l.skipSpace.expireKeys? = some l.skipSpace := by
    rw [hspace]
    rfl
  have hletter : (l.skipSpace.unroll l.skipSpace.cursor.column).token? c (cs ++ ':' :: tail) =
      some (atColon tokens indent indents (c :: cs) tail line column) := by
    rw [hspace, unroll_of_le hle, token?_letter hc rfl]
    exact hread
  rw [run?_token hexpire (by rw [hspace]; rfl) hletter]
  refine run?_token hreach rfl ?_ _
  rw [unroll_of_le hhere, token?_colon rfl htail, value?_atColon hindent]

/-- A quoted text is the value of the name before it. -/
theorem run?_quoted {l : Layout} {quote : Char} {cs s after : List Char} (hquote : IsQuote quote)
    (h : Quoted quote cs s) (hafter : after.head? ≠ some '\'') (hindent : indent ≤ column)
    (hspace : l.skipSpace =
      outside tokens indent indents false ⟨quote :: (cs ++ quote :: after), line, column⟩)
    (fuel : Nat) : run? (fuel + 1) l =
      run? fuel (outside (tokens ++ [.scalar (String.ofList s) false]) indent indents false
        ⟨after, line, column + 1 + cs.length + 1⟩) := by
  have hexpire : l.skipSpace.expireKeys? = some l.skipSpace := by
    rw [hspace]
    rfl
  have hfuel : cs.length < (quote :: (cs ++ quote :: after)).length + 1 := by
    rw [List.length_cons, List.length_append]
    omega
  have hread := readQuoted?_of_quoted hquote h hafter hfuel [] line (Nat.succ_ne_zero column)
  refine run?_token hexpire (by rw [hspace]; rfl) ?_ _
  rw [hspace, unroll_of_le hindent, token?_quote hquote rfl]
  change (readQuoted? quote ((quote :: (cs ++ quote :: after)).length + 1) []
    ⟨cs ++ quote :: after, line, column + 1⟩).bind _ = _
  rw [hread]
  simp [scalar, emit, outside]

/-- The end of the last line ends all blocks. -/
theorem run?_end (fuel : Nat) :
    run? (fuel + 1) (outside tokens indent indents false ⟨['\n'], line, column⟩) =
      (outside tokens indent indents true ⟨[], line + 1, 0⟩).finish? := by
  have hsolid : Solid [] := fun c hc => by cases hc
  have hspace : (outside tokens indent indents false ⟨['\n'], line, column⟩).skipSpace =
      outside tokens indent indents true ⟨[], line + 1, 0⟩ :=
    skipSpace_line [] [] (List.forall_mem_nil _) hsolid
  have hexpire : (outside tokens indent indents true ⟨[], line + 1, 0⟩).expireKeys? =
      some (outside tokens indent indents true ⟨[], line + 1, 0⟩) := rfl
  rw [run?, hspace, hexpire]
  rfl

theorem solid_quote {quote : Char} (h : IsQuote quote) (rest : List Char) :
    Solid (quote :: rest) := by
  rintro c hc
  cases hc
  rcases h with rfl | rfl <;> decide

variable {quote : Char} {cs s group : List Char}

/-- After the colon of a name, a quoted text and the end of the line. -/
def quotedValue (quote : Char) (cs : List Char) : List Char :=
  ' ' :: quote :: (cs ++ quote :: ['\n'])

/-- The last value of a file. -/
theorem run?_last (hquote : IsQuote quote) (h : Quoted quote cs s) (hindent : indent ≤ column + 1)
    (fuel : Nat) :
    run? (fuel + 2) (outside tokens indent indents false ⟨quotedValue quote cs, line, column⟩) =
      (outside (tokens ++ [.scalar (String.ofList s) false]) indent indents true
        ⟨[], line + 1, 0⟩).finish? := by
  have hafter : ['\n'].head? ≠ some '\'' := by decide
  have hblank : ∀ c ∈ [' '], c = ' ' := by simp
  have hspace : (outside tokens indent indents false
      ⟨quotedValue quote cs, line, column⟩).skipSpace = _ :=
    skipSpace_blanks [' '] (quote :: (cs ++ quote :: ['\n'])) hblank (solid_quote hquote _)
  rw [run?_quoted hquote h hafter hindent hspace, run?_end]

/-! ## The whole file -/

theorem run?_single (hname : Word name) (hquote : IsQuote quote) (h : Quoted quote cs s)
    (fuel : Nat) :
    run? (fuel + 4) (outside [] (-1) [] true ⟨name ++ ':' :: quotedValue quote cs, 0, 0⟩) =
      some (nameTokens (String.ofList name) ++
        [Token.scalar (String.ofList s) false, Token.blockEnd]).toArray := by
  rw [run?_name hname rfl (show (-1 : Int) < (0 : Nat) by decide)
    (skipSpace_solid (hname.solid _)), run?_last hquote h (by omega)]
  rfl

theorem run?_nested (hgroup : Word group) (hname : Word name) (hquote : IsQuote quote)
    (h : Quoted quote cs s) (fuel : Nat) :
    run? (fuel + 6) (outside [] (-1) [] true
      ⟨group ++ ':' :: '\n' :: ' ' :: ' ' :: (name ++ ':' :: quotedValue quote cs), 0, 0⟩) =
      some (nameTokens (String.ofList group) ++ (nameTokens (String.ofList name) ++
        [Token.scalar (String.ofList s) false, Token.blockEnd, Token.blockEnd])).toArray := by
  have hspace : (outside ([] ++ nameTokens (String.ofList group)) (0 : Nat) [-1] false
      ⟨'\n' :: ' ' :: ' ' :: (name ++ ':' :: quotedValue quote cs), 0,
        0 + group.length + 1⟩).skipSpace = _ :=
    skipSpace_line [' ', ' '] _ (by simp) (hname.solid _)
  rw [run?_name hgroup rfl (show (-1 : Int) < (0 : Nat) by decide)
    (skipSpace_solid (hgroup.solid _)),
    run?_name hname rfl (show ((0 : Nat) : Int) < (2 : Nat) by decide) hspace,
    run?_last hquote h (by omega)]
  rfl

end Layout

theorem unifyBreaks_eq_self (h : ∀ c ∈ cs, c ∉ ['\r', '\x85']) : unifyBreaks cs = cs := by
  induction cs with
  | nil => rfl
  | cons c cs ih =>
    obtain ⟨hc, hcs⟩ := List.forall_mem_cons.1 h
    simp only [List.mem_cons, List.not_mem_nil, or_false, not_or] at hc
    rw [unifyBreaks]
    · simp [hc, ih hcs]
    · rintro rest rfl
      exact absurd rfl hc.1

/-- Characters of lines with one way to end them. -/
def OfLines (cs : List Char) : Prop := ∀ c ∈ cs, OfLine c ∨ c = '\n'

/-- The tokens of a text, where enough fuel and more yield the same ones. -/
theorem tokens?_of_run {tokens : List Token} {count : Nat} (h : OfLines cs)
    (hcount : count ≤ cs.length + 1)
    (hrun : ∀ fuel, Layout.run? (fuel + count) (.outside [] (-1) [] true ⟨cs, 0, 0⟩) =
      some tokens.toArray) : tokens? (String.ofList cs) = some tokens := by
  have hallowed : cs.all isAllowed = true := by
    refine List.all_eq_true.2 fun c hc => ?_
    rcases h c hc with hline | rfl
    · exact hline.1
    · rfl
  have hunified : unifyBreaks cs = cs := by
    refine unifyBreaks_eq_self fun c hc => ?_
    rcases h c hc with hline | rfl
    · exact hline.2.2
    · decide
  have htokens : Layout.run? (cs.length + 1) (.outside [] (-1) [] true ⟨cs, 0, 0⟩) =
      some tokens.toArray := by
    rw [← Nat.sub_add_cancel hcount, hrun]
  rw [tokens?, String.toList_ofList, if_pos hallowed, hunified]
  exact congrArg (Option.map (·.toList)) htokens

theorem Word.ofLines (h : Word name) : OfLines name := fun c hc => .inl (h.letters c hc).ofLine

theorem ofLines_value (hquote : IsQuote quote) (h : Quoted quote cs s) :
    OfLines (':' :: Layout.quotedValue quote cs) := by
  have hmarks : ∀ c ∈ [':', ' ', '"', '\''], OfLine c := by
    simp only [List.forall_mem_cons]
    exact ⟨ofLine_of_ascii (by decide) (by decide), ofLine_of_ascii (by decide) (by decide),
      ofLine_of_ascii (by decide) (by decide), ofLine_of_ascii (by decide) (by decide),
      List.forall_mem_nil _⟩
  have hmark : OfLine quote := hmarks quote (by rcases hquote with rfl | rfl <;> simp)
  intro c hc
  simp only [Layout.quotedValue, List.mem_cons, List.mem_append, List.not_mem_nil, or_false] at hc
  rcases hc with rfl | rfl | rfl | hc | rfl | rfl
  · exact .inl (hmarks _ (by simp))
  · exact .inl (hmarks _ (by simp))
  · exact .inl hmark
  · exact .inl (ofLine_of_quoted h c hc)
  · exact .inl hmark
  · exact .inr rfl

/-- The text `q` is `s` between quotes, on one line. -/
def IsQuotation (q s : String) : Prop :=
  ∃ quote cs, IsQuote quote ∧ Quoted quote cs s.toList ∧ q.toList = quote :: (cs ++ [quote])

theorem exists_quotation (s : String) : ∃ q, IsQuotation q s := by
  obtain ⟨cs, hcs⟩ := exists_quoted s.toList
  exact ⟨String.ofList ('"' :: (cs ++ ['"'])), '"', cs, .inl rfl, hcs, String.toList_ofList⟩

end ControlPlane.Yaml

namespace ControlPlane.Settings

open Yaml

/-- A file that gives the setting at a path, and no other, with `q` for its value. -/
def entry : List String → String → String
  | [name], q => name ++ ": " ++ q ++ "\n"
  | [group, name], q => group ++ ":\n  " ++ name ++ ": " ++ q ++ "\n"
  | _, _ => ""

variable {group name q s : String}

theorem ofRoot?_single (name s : String) : (Node.ofTokens? (Layout.nameTokens name ++
    [Token.scalar s false, Token.blockEnd])).bind ofRoot? = some (Tree.nest [name] (.text s)) := rfl

theorem ofRoot?_nested (group name s : String) :
    (Node.ofTokens? (Layout.nameTokens group ++ (Layout.nameTokens name ++
      [Token.scalar s false, Token.blockEnd, Token.blockEnd]))).bind ofRoot? =
      some (Tree.nest [group, name] (.text s)) := rfl

theorem ofText?_entry_single (hname : Word name.toList) (h : IsQuotation q s) :
    ofText? (entry [name] q) = some (Tree.nest [name] (.text s)) := by
  obtain ⟨quote, cs, hquote, hquoted, hq⟩ := h
  have hentry : entry [name] q =
      String.ofList (name.toList ++ ':' :: Layout.quotedValue quote cs) :=
    String.toList_injective (by simp [entry, hq, Layout.quotedValue])
  have hlines : OfLines (name.toList ++ ':' :: Layout.quotedValue quote cs) :=
    List.forall_mem_append.2 ⟨hname.ofLines, ofLines_value hquote hquoted⟩
  have hlength : 4 ≤ (name.toList ++ ':' :: Layout.quotedValue quote cs).length + 1 := by
    simp only [Layout.quotedValue, List.length_append, List.length_cons]
    omega
  have htokens := tokens?_of_run hlines hlength (Layout.run?_single hname hquote hquoted)
  rw [ofText?, hentry, htokens, String.ofList_toList, String.ofList_toList]
  exact ofRoot?_single name s

theorem ofText?_entry_nested (hgroup : Word group.toList) (hname : Word name.toList)
    (h : IsQuotation q s) :
    ofText? (entry [group, name] q) = some (Tree.nest [group, name] (.text s)) := by
  obtain ⟨quote, cs, hquote, hquoted, hq⟩ := h
  have hentry : entry [group, name] q = String.ofList (group.toList ++
      ':' :: '\n' :: ' ' :: ' ' :: (name.toList ++ ':' :: Layout.quotedValue quote cs)) :=
    String.toList_injective (by simp [entry, hq, Layout.quotedValue])
  have hbetween : OfLines [':', '\n', ' ', ' '] := by
    have hcolon : OfLine ':' := ofLine_of_ascii (by decide) (by decide)
    have hspace : OfLine ' ' := ofLine_of_ascii (by decide) (by decide)
    simp [OfLines, hcolon, hspace]
  have hlines : OfLines (group.toList ++
      ':' :: '\n' :: ' ' :: ' ' :: (name.toList ++ ':' :: Layout.quotedValue quote cs)) :=
    List.forall_mem_append.2 ⟨hgroup.ofLines, List.forall_mem_append.2 ⟨hbetween,
      List.forall_mem_append.2 ⟨hname.ofLines, ofLines_value hquote hquoted⟩⟩⟩
  have hlength : 6 ≤ (group.toList ++ ':' :: '\n' :: ' ' :: ' ' ::
      (name.toList ++ ':' :: Layout.quotedValue quote cs)).length + 1 := by
    simp only [List.length_append, List.length_cons]
    omega
  have htokens := tokens?_of_run hlines hlength (Layout.run?_nested hgroup hname hquote hquoted)
  rw [ofText?, hentry, htokens, String.ofList_toList, String.ofList_toList, String.ofList_toList]
  exact ofRoot?_nested group name s

end ControlPlane.Settings
