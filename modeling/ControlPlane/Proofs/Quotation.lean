/-
Quoted scalars on one line. `Quoted` tells how a text may be written between quotes:
character by character, each as it stands or escaped. It is read back as it was
(`readQuoted?_of_quoted`), whatever it looks like without its quotes; and every text
can be written so (`exists_quoted`).
-/
import ControlPlane.Proofs.Hex
import ControlPlane.Yaml.Scalar

namespace ControlPlane.Yaml

/-! ## Characters -/

/-- A character that may stand in a line. -/
def OfLine (c : Char) : Prop := isAllowed c = true ∧ isBreak c = false ∧ c ∉ ['\r', '\x85']

theorem ofLine_of_ascii {c : Char} (hlow : ' ' ≤ c) (hhigh : c ≤ '~') : OfLine c := by
  have hlow' : 0x20 ≤ c.toNat := hlow
  have hhigh' : c.toNat ≤ 0x7e := hhigh
  have hne (d : Char) (hd : 0x7e < d.toNat ∨ d.toNat < 0x20) : c ≠ d := by
    rintro rfl
    omega
  refine ⟨by simp [isAllowed, hlow', hhigh'], ?_, ?_⟩
  · simp [isBreak, hne '\n' (by decide), hne '\u2028' (by decide), hne '\u2029' (by decide)]
  · simp [hne '\r' (by decide), hne '\x85' (by decide)]

theorem ofLine_of_digit {c : Char} {d : Nat} (h : Hex.value? c = some d) : OfLine c := by
  have hrange {a b : Char} (ha : ' ' ≤ a) (hb : b ≤ '~') (hc : a ≤ c ∧ c ≤ b) : OfLine c :=
    ofLine_of_ascii (Nat.le_trans ha hc.1) (Nat.le_trans hc.2 hb)
  unfold Hex.value? at h
  split at h
  · next hc => exact hrange (by decide) (by decide) hc
  · split at h
    · next hc => exact hrange (by decide) (by decide) hc
    · split at h
      · next hc => exact hrange (by decide) (by decide) hc
      · cases h

theorem ofLine_of_escape {e x : Char} (h : escaped? e = some x) : OfLine e := by
  unfold escaped? at h
  split at h
  case h_5 => exact ⟨rfl, rfl, by decide⟩
  case h_19 => cases h
  all_goals exact ofLine_of_ascii (by decide) (by decide)

theorem ofLine_of_mark {e : Char} {count : Nat} (h : escapeDigits? e = some count) : OfLine e := by
  unfold escapeDigits? at h
  split at h
  case h_4 => cases h
  all_goals exact ofLine_of_ascii (by decide) (by decide)

/-! ## What stands between quotes -/

/-- The ways to write one character between quotes. -/
inductive Spelling : (quote : Char) → List Char → Char → Prop
  | plain {quote c} : OfLine c → c ≠ quote → (quote = '"' → c ≠ '\\') → Spelling quote [c] c
  | doubled : Spelling '\'' ['\'', '\''] '\''
  | escape {e x} : escaped? e = some x → Spelling '"' ['\\', e] x
  | code {e digits x} : escapeDigits? e = some digits.length → Hex.Digits 0 digits x.toNat →
      Spelling '"' ('\\' :: e :: digits) x

/-- The ways to write a text between quotes. -/
inductive Quoted (quote : Char) : List Char → List Char → Prop
  | nil : Quoted quote [] []
  | cons {cs c rest s} : Spelling quote cs c → Quoted quote rest s →
      Quoted quote (cs ++ rest) (c :: s)

variable {quote : Char} {cs s after : List Char}

theorem ofLine_of_digits {acc n : Nat} {digits : List Char} (h : Hex.Digits acc digits n) :
    ∀ c ∈ digits, OfLine c := by
  induction h with
  | nil => exact List.forall_mem_nil _
  | cons hd _ ih => exact List.forall_mem_cons.2 ⟨ofLine_of_digit hd, ih⟩

theorem ofLine_of_spelling {c : Char} (h : Spelling quote cs c) : ∀ d ∈ cs, OfLine d := by
  have hslash : OfLine '\\' := ofLine_of_ascii (by decide) (by decide)
  have hsingle : OfLine '\'' := ofLine_of_ascii (by decide) (by decide)
  cases h with
  | plain hline => exact List.forall_mem_singleton.2 hline
  | doubled => simp [hsingle]
  | escape he => simp [hslash, ofLine_of_escape he]
  | code he hdigits => exact List.forall_mem_cons.2 ⟨hslash,
      List.forall_mem_cons.2 ⟨ofLine_of_mark he, ofLine_of_digits hdigits⟩⟩

theorem ofLine_of_quoted (h : Quoted quote cs s) : ∀ c ∈ cs, OfLine c := by
  induction h with
  | nil => exact List.forall_mem_nil _
  | cons hc _ ih => exact List.forall_mem_append.2 ⟨ofLine_of_spelling hc, ih⟩

/-- A blank stands for itself. -/
theorem quoted_of_blank {b : Char} (hb : isBlank b = true) (h : Quoted quote (b :: cs) s) :
    ∃ s', s = b :: s' ∧ Quoted quote cs s' := by
  generalize hall : b :: cs = all at h
  cases h with
  | nil => cases hall
  | cons hc hrest =>
    cases hc with
    | plain =>
      cases hall
      exact ⟨_, rfl, hrest⟩
    | _ =>
      cases hall
      cases hb

theorem eq_nil_of_quoted (h : Quoted quote [] s) : s = [] := by
  generalize hnil : [] = cs at h
  cases h with
  | nil => rfl
  | cons hc => cases hc <;> cases hnil

/-- Blanks, and then something else or nothing. -/
theorem exists_blanks (h : Quoted quote cs s) : ∃ blanks cs' s', cs = blanks ++ cs' ∧
    s = blanks ++ s' ∧ (∀ c ∈ blanks, isBlank c = true) ∧ Quoted quote cs' s' ∧
      ∀ c ∈ cs'.head?, isBlank c = false := by
  induction cs generalizing s with
  | nil => exact ⟨[], [], s, rfl, rfl, List.forall_mem_nil _, h, fun c hc => by cases hc⟩
  | cons b cs ih =>
    cases hb : isBlank b with
    | false =>
      refine ⟨[], b :: cs, s, rfl, rfl, List.forall_mem_nil _, h, fun c hc => ?_⟩
      cases hc
      exact hb
    | true =>
      obtain ⟨s, rfl, hcs⟩ := quoted_of_blank hb h
      obtain ⟨blanks, cs', s', rfl, rfl, hblanks, hquoted, hhead⟩ := ih hcs
      exact ⟨b :: blanks, cs', s', rfl, rfl, List.forall_mem_cons.2 ⟨hb, hblanks⟩, hquoted, hhead⟩

/-! ## Stretches -/

/-- A quoted text is split where a stretch of it ends that reads as `word`: at its
end or at the first blank that is not escaped. -/
structure Stretch (quote : Char) (cs s taken word tail text : List Char) : Prop where
  written : cs = taken ++ tail
  said : s = word ++ text
  quoted : Quoted quote tail text
  blank : ∀ c ∈ tail.head?, isBlank c = true

theorem Stretch.nil : Stretch quote [] [] [] [] [] [] := ⟨rfl, rfl, .nil, fun c hc => by cases hc⟩

theorem Stretch.blank_head {b : Char} (hb : isBlank b = true) (h : Quoted quote (b :: cs) s) :
    Stretch quote (b :: cs) s [] [] (b :: cs) s := by
  refine ⟨rfl, rfl, h, fun c hc => ?_⟩
  cases hc
  exact hb

theorem Stretch.cons {c : Char} {spelling taken word tail text : List Char}
    (h : Stretch quote cs s taken word tail text) :
    Stretch quote (spelling ++ cs) (c :: s) (spelling ++ taken) (c :: word) tail text :=
  ⟨by rw [h.written, List.append_assoc], by rw [h.said]; rfl, h.quoted, h.blank⟩

/-- Whether a stretch goes on with a character of the line. -/
theorem endsWord_eq_isBlank {c : Char} (h : OfLine c) (rest : List Char) :
    endsWord (c :: rest) = isBlank c := by
  rw [endsWord, h.2.1, Bool.or_false]

theorem readEscape?_of_spelling {e x : Char} {digits : List Char}
    (h : Spelling '"' ('\\' :: e :: digits) x) (rest : List Char) :
    OfLine e ∧ readEscape? (e :: (digits ++ rest)) = some (x, rest) := by
  cases h with
  | escape he =>
    have hmark : escapeDigits? e = none := by
      cases hcount : escapeDigits? e with
      | none => rfl
      | some count =>
        unfold escapeDigits? at hcount
        split at hcount
        case h_4 => cases hcount
        all_goals cases he
    exact ⟨ofLine_of_escape he, by simp [readEscape?, hmark, he]⟩
  | code he hdigits =>
    have hchar : Hex.readChar? digits.length (digits ++ rest) = some (x, rest) :=
      Hex.readChar?_eq_some_iff.2 ⟨digits, rfl, rfl, hdigits⟩
    exact ⟨ofLine_of_mark he, by simp [readEscape?, he, hchar]⟩

/-- Where a character is written with a backslash, a stretch goes on after it. -/
theorem takeDouble?_escape {c : Char} {spelling : List Char} (h : Spelling '"' spelling c)
    (hslash : spelling.head? = some '\\') (fuel : Nat) (rest : List Char) :
    takeDouble? (fuel + 1) (spelling ++ rest) =
      (takeDouble? fuel rest).map fun p => (c :: p.1, p.2) := by
  obtain ⟨e, digits, rfl⟩ : ∃ e digits, spelling = '\\' :: e :: digits := by
    cases h with
    | plain _ _ hplain => cases hslash; exact absurd rfl (hplain rfl)
    | escape => exact ⟨_, _, rfl⟩
    | code => exact ⟨_, _, rfl⟩
  obtain ⟨hline, hread⟩ := readEscape?_of_spelling h rest
  have hends : endsWord ('\\' :: e :: (digits ++ rest)) = false := rfl
  simp only [List.cons_append, takeDouble?, hends, hline.2.1, hread]
  rfl

theorem takeDouble?_of_quoted (h : Quoted '"' cs s) (after : List Char) {fuel : Nat}
    (hfuel : cs.length < fuel) : ∃ taken word tail text, Stretch '"' cs s taken word tail text ∧
      takeDouble? fuel (cs ++ '"' :: after) = some (word, tail ++ '"' :: after) := by
  induction h generalizing fuel with
  | nil =>
    obtain ⟨fuel, rfl⟩ : ∃ k, fuel = k + 1 := ⟨fuel - 1, by omega⟩
    exact ⟨[], [], [], [], .nil, rfl⟩
  | @cons spelling c cs s hc hcs ih =>
    obtain ⟨fuel, rfl⟩ : ∃ k, fuel = k + 1 := ⟨fuel - 1, by omega⟩
    have hfuel' : spelling ≠ [] → cs.length < fuel := by
      intro hne
      have hpos : 0 < spelling.length := List.length_pos_iff.2 hne
      rw [List.length_append] at hfuel
      omega
    by_cases hslash : spelling.head? = some '\\'
    · obtain ⟨taken, word, tail, text, hstretch, htake⟩ := ih (hfuel' (by rintro rfl; cases hslash))
      refine ⟨_, _, _, _, hstretch.cons, ?_⟩
      rw [List.append_assoc, takeDouble?_escape hc hslash, htake]
      rfl
    · cases hc with
      | plain hline hquote hplain =>
        cases hblank : isBlank c with
        | true =>
          refine ⟨_, _, _, _, .blank_head hblank (.cons (.plain hline hquote hplain) hcs), ?_⟩
          simp [takeDouble?, endsWord_eq_isBlank hline, hblank]
        | false =>
          obtain ⟨taken, word, tail, text, hstretch, htake⟩ := ih (hfuel' (by simp))
          refine ⟨_, _, _, _, hstretch.cons, ?_⟩
          simp [takeDouble?, endsWord_eq_isBlank hline, hblank, hquote, hplain rfl, htake]
      | _ => exact absurd rfl hslash

/-- One single quote does not stand for itself. -/
theorem takeSingle_cons {c : Char} {rest : List Char} (h : c = '\'' → rest.head? ≠ some '\'') :
    takeSingle (c :: rest) = if c == '\'' || endsWord (c :: rest) then ([], c :: rest)
      else (c :: (takeSingle rest).1, (takeSingle rest).2) := by
  rw [takeSingle]
  rintro rest' hc rfl
  exact h hc rfl

theorem takeSingle_of_quoted (h : Quoted '\'' cs s) (hafter : after.head? ≠ some '\'') :
    ∃ taken word tail text, Stretch '\'' cs s taken word tail text ∧
      takeSingle (cs ++ '\'' :: after) = (word, tail ++ '\'' :: after) := by
  induction h with
  | nil =>
    refine ⟨[], [], [], [], .nil, ?_⟩
    rw [List.nil_append, takeSingle_cons fun _ => hafter]
    rfl
  | @cons spelling c cs s hc hcs ih =>
    obtain ⟨taken, word, tail, text, hstretch, htake⟩ := ih
    cases hc with
    | plain hline hquote hplain =>
      cases hblank : isBlank c with
      | true =>
        refine ⟨_, _, _, _, .blank_head hblank (.cons (.plain hline hquote hplain) hcs), ?_⟩
        rw [List.cons_append, List.cons_append, takeSingle_cons fun heq => absurd heq hquote]
        simp [endsWord_eq_isBlank hline, hblank]
      | false =>
        refine ⟨_, _, _, _, hstretch.cons, ?_⟩
        rw [List.cons_append, List.cons_append, takeSingle_cons fun heq => absurd heq hquote]
        simp [endsWord_eq_isBlank hline, hblank, hquote, htake]
    | doubled =>
      refine ⟨_, _, _, _, hstretch.cons, ?_⟩
      simp [takeSingle, htake]

/-- The quotes that a text may be put between. -/
def IsQuote (quote : Char) : Prop := quote = '"' ∨ quote = '\''

theorem takeQuoted?_of_quoted (hquote : IsQuote quote) (h : Quoted quote cs s)
    (hafter : after.head? ≠ some '\'') :
    ∃ taken word tail text, Stretch quote cs s taken word tail text ∧
      takeQuoted? quote (cs ++ quote :: after) = some (word, tail ++ quote :: after) := by
  rcases hquote with rfl | rfl
  · have hfuel : cs.length < (cs ++ '"' :: after).length := by
      rw [List.length_append, List.length_cons]
      omega
    exact takeDouble?_of_quoted h after hfuel
  · obtain ⟨taken, word, tail, text, hstretch, htake⟩ := takeSingle_of_quoted h hafter
    exact ⟨taken, word, tail, text, hstretch, congrArg some htake⟩

/-! ## Reading -/

theorem Cursor.moveTo_append (word rest : List Char) (line column : Nat) :
    (⟨word ++ rest, line, column⟩ : Cursor).moveTo rest = ⟨rest, line, column + word.length⟩ := by
  have hlength : (word ++ rest).length - rest.length = word.length := by
    rw [List.length_append, Nat.add_sub_cancel]
  simp only [Cursor.moveTo, Cursor.advance, hlength, List.drop_left]

/-- Blanks within a line are a gap that reads as they stand. -/
theorem Gap.skip_blanks {blanks rest : List Char} (hblanks : ∀ c ∈ blanks, isBlank c = true)
    (hrest : ∀ c ∈ rest.head?, isBlank c = false ∧ isBreak c = false) (column line here : Nat) :
    Gap.skip column {} ⟨blanks ++ rest, line, here⟩ =
      ({ blanks }, ⟨rest, line, here + blanks.length⟩) := by
  have hgo (front : List Char) (here : Nat) :
      Gap.skip.go column { blanks := front } line here (blanks ++ rest) =
        ({ blanks := front ++ blanks }, ⟨rest, line, here + blanks.length⟩) := by
    induction blanks generalizing front here with
    | nil =>
      cases rest with
      | nil => simp [Gap.skip.go]
      | cons c rest =>
        obtain ⟨hblank, hbreak⟩ := hrest c rfl
        simp [Gap.skip.go, hblank, hbreak]
    | cons b blanks ih =>
      obtain ⟨hb, hblanks⟩ := List.forall_mem_cons.1 hblanks
      have hmore := ih hblanks (front ++ [b]) (here + 1)
      simp only [List.append_assoc, List.singleton_append] at hmore
      rw [List.cons_append, Gap.skip.go, if_pos hb, List.length_cons, Nat.add_comm blanks.length,
        ← Nat.add_assoc]
      exact hmore
  exact hgo [] here

theorem skipEscapedBreak_of_head {c : Cursor} (h : c.rest.head? ≠ some '\\') :
    skipEscapedBreak quote c = ({}, c) := by
  unfold skipEscapedBreak
  split
  · next heq => exact absurd (by rw [heq]; rfl) h
  · rfl

theorem IsQuote.not_blank (h : IsQuote quote) : isBlank quote = false ∧ isBreak quote = false := by
  rcases h with rfl | rfl <;> exact ⟨rfl, rfl⟩

/-- The end of a stretch is no escaped line end, and it is the closing quote just if
nothing is left. -/
theorem Stretch.stop {taken word tail text : List Char}
    (h : Stretch quote cs s taken word tail text) (hquote : IsQuote quote) (after : List Char) :
    (tail ++ quote :: after).head? ≠ some '\\' ∧
      ((tail ++ quote :: after).head? == some quote) = decide (tail = []) := by
  cases tail with
  | nil =>
    refine ⟨?_, by simp⟩
    rcases hquote with rfl | rfl <;> simp
  | cons b tail =>
    have hb : isBlank b = true := h.blank b rfl
    have hslash : b ≠ '\\' := by
      rintro rfl
      cases hb
    have hbquote : b ≠ quote := by
      rintro rfl
      cases hb.symm.trans hquote.not_blank.1
    exact ⟨by simpa using hslash, by simpa using hbquote⟩

/-- A turn of the reader takes one stretch, and the gap after it if there is one. -/
theorem readQuoted?_turn {taken word tail text : List Char}
    (hstretch : Stretch quote cs s taken word tail text) (hquote : IsQuote quote)
    (htake : takeQuoted? quote (cs ++ quote :: after) = some (word, tail ++ quote :: after))
    (fuel : Nat) (front : List Char) (line : Nat) {column : Nat} (hcolumn : column ≠ 0) :
    readQuoted? quote (fuel + 1) front ⟨cs ++ quote :: after, line, column⟩ =
      if tail = [] then
        some ⟨front ++ word, false, ⟨after, line, column + taken.length + 1⟩⟩
      else
        readQuoted? quote fuel
          (front ++ word ++
            (Gap.skip 0 {} ⟨tail ++ quote :: after, line, column + taken.length⟩).1.text)
          (Gap.skip 0 {} ⟨tail ++ quote :: after, line, column + taken.length⟩).2 := by
  have hmarker : (⟨cs ++ quote :: after, line, column⟩ : Cursor).atMarker = false := by
    simp [Cursor.atMarker, Cursor.atStartMarker, Cursor.atEndMarker, hcolumn]
  have hempty : (cs ++ quote :: after).isEmpty = false := by simp
  have hmove : (⟨cs ++ quote :: after, line, column⟩ : Cursor).moveTo (tail ++ quote :: after) =
      ⟨tail ++ quote :: after, line, column + taken.length⟩ := by
    rw [hstretch.written, List.append_assoc, Cursor.moveTo_append]
  obtain ⟨hslash, hclosing⟩ := hstretch.stop hquote after
  have hbreak : skipEscapedBreak quote ⟨tail ++ quote :: after, line, column + taken.length⟩ =
      ({}, ⟨tail ++ quote :: after, line, column + taken.length⟩) :=
    skipEscapedBreak_of_head hslash
  rw [readQuoted?, hmarker, hempty]
  simp only [Bool.or_self, Bool.false_eq_true, if_false, htake, hmove, hbreak, hclosing,
    decide_eq_true_eq]
  split
  · next hnil =>
    subst hnil
    rfl
  · rfl

/-- A text that is written between quotes on one line is read as it is. -/
theorem readQuoted?_of_quoted (hquote : IsQuote quote) (h : Quoted quote cs s)
    (hafter : after.head? ≠ some '\'') {fuel : Nat} (hfuel : cs.length < fuel) (front : List Char)
    (line : Nat) {column : Nat} (hcolumn : column ≠ 0) :
    readQuoted? quote fuel front ⟨cs ++ quote :: after, line, column⟩ =
      some ⟨front ++ s, false, ⟨after, line, column + cs.length + 1⟩⟩ := by
  -- The fuel counts the turns; each but the last takes a blank at least.
  induction fuel generalizing cs s front column with
  | zero => exact absurd hfuel (Nat.not_lt_zero _)
  | succ fuel ih =>
    obtain ⟨taken, word, tail, text, hstretch, htake⟩ := takeQuoted?_of_quoted hquote h hafter
    rw [readQuoted?_turn hstretch hquote htake fuel front line hcolumn]
    split
    · next hnil =>
      subst hnil
      obtain rfl := eq_nil_of_quoted hstretch.quoted
      rw [hstretch.written, hstretch.said, List.append_nil, List.append_nil]
    · next hne =>
      obtain ⟨blanks, cs', s', rfl, rfl, hblanks, hquoted, hfirst⟩ := exists_blanks hstretch.quoted
      have hpos : 0 < blanks.length := by
        refine List.length_pos_iff.2 ?_
        rintro rfl
        obtain ⟨b, tail, rfl⟩ := List.exists_cons_of_ne_nil hne
        cases (hstretch.blank b rfl).symm.trans (hfirst b rfl)
      have hrest : ∀ c ∈ (cs' ++ quote :: after).head?, isBlank c = false ∧ isBreak c = false := by
        cases cs' with
        | nil =>
          rintro c hc
          cases hc
          exact hquote.not_blank
        | cons c cs' =>
          rintro d hd
          cases hd
          exact ⟨hfirst c rfl, (ofLine_of_quoted hquoted c (List.mem_cons_self ..)).2.1⟩
      have hlength : cs.length = taken.length + blanks.length + cs'.length := by
        rw [hstretch.written, List.length_append, List.length_append, Nat.add_assoc]
      have htext : ({ blanks } : Gap).text = blanks := rfl
      rw [List.append_assoc blanks, Gap.skip_blanks hblanks hrest, htext,
        ih hquoted (by omega) _ (by omega), hstretch.said, hlength]
      simp only [List.append_assoc, Nat.add_assoc]

/-! ## Ways to quote a text -/

/-- A text without quotes, backslashes and line ends can be written as it is. -/
theorem quoted_self (h : ∀ c ∈ s, OfLine c ∧ c ≠ quote ∧ c ≠ '\\') : Quoted quote s s := by
  induction s with
  | nil => exact .nil
  | cons c s ih =>
    obtain ⟨⟨hline, hquote, hslash⟩, hs⟩ := List.forall_mem_cons.1 h
    exact .cons (.plain hline hquote fun _ => hslash) (ih hs)

/-- A text can be written between double quotes, if by nothing else then by the code
points of its characters. -/
theorem exists_quoted (s : List Char) : ∃ cs, Quoted '"' cs s := by
  induction s with
  | nil => exact ⟨[], .nil⟩
  | cons c s ih =>
    obtain ⟨cs, hcs⟩ := ih
    have hsmall : c.toNat < 16 ^ 8 := c.val.toNat_lt
    obtain ⟨digits, hlength, hdigits⟩ := Hex.exists_digits 8 0 hsmall
    rw [Nat.zero_mul, Nat.zero_add] at hdigits
    have hmark : escapeDigits? 'U' = some digits.length := by rw [hlength]; rfl
    exact ⟨_, .cons (.code hmark hdigits) hcs⟩

end ControlPlane.Yaml
