/-
The reader of JSON goes by its spelling. With fuel for twice the bytes it reads
what they spell, and what follows is left (`readValue?_of_spells`); and whatever
it reads, with whatever fuel, the bytes spell (`sound`). So a text has the value
it spells, and no other text has one (`read?_eq_some_iff`).
-/
import ControlPlane.Proofs.Grammar

namespace ControlPlane.Json

/-! ## What is spelled is read -/

/-- Bytes that a value may have in front: none is space or ends a list. -/
def Opens (b : UInt8) : Prop := isSpace b = false ∧ b ≠ 0x5D

instance (b : UInt8) : Decidable (Opens b) := inferInstanceAs (Decidable (_ ∧ _))

theorem opens_of_isDigit {b : UInt8} (h : Numeral.isDigit b = true) : Opens b := by
  simp only [Numeral.isDigit, Bool.and_eq_true, decide_eq_true_eq, UInt8.le_iff_toNat_le] at h
  have hne (c : UInt8) (hc : c.toNat < 0x30 ∨ 0x39 < c.toNat) : b ≠ c := by
    rintro rfl
    exact absurd h (by simp; omega)
  refine ⟨?_, hne _ (by decide)⟩
  simp [isSpace, hne 0x20 (by decide), hne 0x0A (by decide), hne 0x0D (by decide),
    hne 0x09 (by decide)]

theorem Spells.head {j : Json} {bytes : Bytes} (h : j.Spells bytes) :
    ∃ b rest, bytes = b :: rest ∧ Opens b := by
  cases j with
  | null =>
    rw [Spells] at h
    exact ⟨_, _, h, by decide⟩
  | bool b =>
    cases b <;> rw [Spells] at h <;> exact ⟨_, _, h, by decide⟩
  | number n =>
    rw [Spells] at h
    obtain ⟨b, rest, rfl, hb⟩ := h.head
    refine ⟨b, rest, rfl, ?_⟩
    rcases hb with rfl | hb
    · decide
    · exact opens_of_isDigit hb
  | string =>
    rw [Spells] at h
    obtain ⟨rest, rfl⟩ := h.head
    exact ⟨_, _, rfl, by decide⟩
  | array | object =>
    rw [Spells] at h
    obtain ⟨inner, rfl, -⟩ := h
    exact ⟨_, _, rfl, by decide⟩

theorem readValue?_space {before : Bytes} (h : Space before) (fuel : Nat) (bytes : Bytes) :
    readValue? fuel (before ++ bytes) = readValue? fuel bytes := by
  cases fuel with
  | zero => rfl
  | succ fuel => simp only [readValue?, skipSpace_append h]

theorem readItems?_space {before : Bytes} (h : Space before) (fuel : Nat) (bytes : Bytes) :
    readItems? fuel (before ++ bytes) = readItems? fuel bytes := by
  cases fuel with
  | zero => rfl
  | succ fuel => simp only [readItems?, readValue?_space h]

theorem readMembers?_space {before : Bytes} (h : Space before) (fuel : Nat) (bytes : Bytes) :
    readMembers? fuel (before ++ bytes) = readMembers? fuel bytes := by
  cases fuel with
  | zero => rfl
  | succ fuel => simp only [readMembers?, skipSpace_append h]

theorem readValue?_numeral {b : UInt8} (h : b = 0x2D ∨ Numeral.isDigit b = true) (fuel : Nat)
    (bytes : Bytes) : readValue? (fuel + 1) (b :: bytes) =
      (Numeral.read? (b :: bytes)).map (Prod.map number id) := by
  have hspace : isSpace b = false := by
    rcases h with rfl | h
    · rfl
    · exact (opens_of_isDigit h).1
  have hne (c : UInt8) (hc : c ≠ 0x2D ∧ Numeral.isDigit c = false) : b ≠ c := by
    rintro rfl
    rcases h with rfl | h
    · exact hc.1 rfl
    · rw [h] at hc
      cases hc.2
  rw [readValue?, skipSpace_cons hspace]
  split
  case h_7 => rfl
  all_goals
    next heq => exact absurd (List.cons.inj heq).1 (hne _ (by decide))

theorem readValue?_quote (fuel : Nat) (bytes : Bytes) : readValue? (fuel + 1) (0x22 :: bytes) =
    (readString? bytes).map (Prod.map string id) := rfl

theorem readValue?_bracket (fuel : Nat) (bytes : Bytes) :
    readValue? (fuel + 1) (0x5B :: bytes) = match skipSpace bytes with
      | 0x5D :: rest => some (array [], rest)
      | rest => (readItems? fuel rest).map (Prod.map array id) := rfl

theorem readValue?_brace (fuel : Nat) (bytes : Bytes) :
    readValue? (fuel + 1) (0x7B :: bytes) = match skipSpace bytes with
      | 0x7D :: rest => some (object [], rest)
      | rest => (readMembers? fuel rest).map (Prod.map object id) := rfl

/-- Items in front are read as such. -/
theorem readValue?_array {bytes before rest : Bytes} {b : UInt8}
    (hbytes : bytes = before ++ b :: rest) (hbefore : Space before) (hb : Opens b) (fuel : Nat) :
    readValue? (fuel + 1) (0x5B :: bytes) = (readItems? fuel bytes).map (Prod.map array id) := by
  subst hbytes
  rw [readValue?_bracket, skipSpace_append hbefore, skipSpace_cons hb.1, readItems?_space hbefore]
  split
  · next heq =>
    cases heq
    exact absurd rfl hb.2
  · rfl

/-- So are members, the first of which has a quote in front. -/
theorem readValue?_object {bytes before rest : Bytes} (hbytes : bytes = before ++ 0x22 :: rest)
    (hbefore : Space before) (fuel : Nat) :
    readValue? (fuel + 1) (0x7B :: bytes) = (readMembers? fuel bytes).map (Prod.map object id) := by
  subst hbytes
  rw [readValue?_brace, skipSpace_append hbefore, skipSpace_cons rfl, readMembers?_space hbefore]
  rfl

theorem readItems?_last {fuel : Nat} {bytes after rest : Bytes} {item : Json}
    (h : readValue? fuel bytes = some (item, after ++ 0x5D :: rest)) (hafter : Space after) :
    readItems? (fuel + 1) bytes = some ([item], rest) := by
  rw [readItems?, h]
  simp only [skipSpace_append hafter]
  rfl

theorem readItems?_more {fuel : Nat} {bytes after rest : Bytes} {item : Json}
    (h : readValue? fuel bytes = some (item, after ++ 0x2C :: rest)) (hafter : Space after) :
    readItems? (fuel + 1) bytes = (readItems? fuel rest).map (Prod.map (item :: ·) id) := by
  rw [readItems?, h]
  simp only [skipSpace_append hafter]
  rfl

/-- A key is read up to its colon. -/
theorem readMembers?_key {key : RawText} {name : Bytes} (h : Spaced (Quoted key) name) (fuel : Nat)
    (bytes : Bytes) : readMembers? (fuel + 1) (name ++ 0x3A :: bytes) =
      match readValue? fuel bytes with
      | none => none
      | some (value, rest) =>
        match skipSpace rest with
        | 0x2C :: rest => (readMembers? fuel rest).map (Prod.map ((key, value) :: ·) id)
        | 0x7D :: rest => some ([(key, value)], rest)
        | _ => none := by
  obtain ⟨before, _, after, rfl, hbefore, ⟨inner, rfl, hinner⟩, hafter⟩ := h
  have hbytes : before ++ (0x22 :: (inner ++ [0x22]) ++ after) ++ 0x3A :: bytes =
      before ++ 0x22 :: (inner ++ 0x22 :: (after ++ 0x3A :: bytes)) := by simp
  have hcolon : skipSpace (after ++ 0x3A :: bytes) = 0x3A :: bytes := by
    rw [skipSpace_append hafter, skipSpace_cons rfl]
  rw [hbytes, readMembers?, skipSpace_append hbefore, skipSpace_cons rfl]
  simp only [readString?_of_spells hinner, hcolon]
  rfl

theorem readMembers?_last {key : RawText} {value : Json} {fuel : Nat}
    {name bytes after rest : Bytes} (hkey : Spaced (Quoted key) name)
    (h : readValue? fuel bytes = some (value, after ++ 0x7D :: rest)) (hafter : Space after) :
    readMembers? (fuel + 1) (name ++ 0x3A :: bytes) = some ([(key, value)], rest) := by
  rw [readMembers?_key hkey, h]
  simp only [skipSpace_append hafter]
  rfl

theorem readMembers?_more {key : RawText} {value : Json} {fuel : Nat}
    {name bytes after rest : Bytes} (hkey : Spaced (Quoted key) name)
    (h : readValue? fuel bytes = some (value, after ++ 0x2C :: rest)) (hafter : Space after) :
    readMembers? (fuel + 1) (name ++ 0x3A :: bytes) =
      (readMembers? fuel rest).map (Prod.map ((key, value) :: ·) id) := by
  rw [readMembers?_key hkey, h]
  simp only [skipSpace_append hafter]
  rfl

theorem SpellItems.head {item : Json} {items : List Json} {inner : Bytes}
    (h : SpellItems (item :: items) inner) :
    ∃ before b rest, inner = before ++ b :: rest ∧ Space before ∧ Opens b := by
  cases items with
  | nil =>
    rw [SpellItems] at h
    obtain ⟨before, text, after, rfl, hbefore, htext, -⟩ := h
    obtain ⟨b, rest, rfl, hb⟩ := htext.head
    exact ⟨before, b, _, rfl, hbefore, hb⟩
  | cons =>
    rw [SpellItems] at h
    obtain ⟨_, back, rfl, ⟨before, text, after, rfl, hbefore, htext, -⟩, -⟩ := h
    obtain ⟨b, rest, rfl, hb⟩ := htext.head
    exact ⟨before, b, rest ++ (after ++ 0x2C :: back), by simp, hbefore, hb⟩

theorem Member.head {key : RawText} {P : Bytes → Prop} {bytes : Bytes} (h : Member key P bytes) :
    ∃ before rest, bytes = before ++ 0x22 :: rest ∧ Space before := by
  obtain ⟨_, back, rfl, ⟨before, text, after, rfl, hbefore, hkey, -⟩, -⟩ := h
  obtain ⟨rest, rfl⟩ := hkey.head
  exact ⟨before, rest ++ (after ++ 0x3A :: back), by simp, hbefore⟩

theorem SpellMembers.head {member : RawText × Json} {members : List (RawText × Json)}
    {inner : Bytes} (h : SpellMembers (member :: members) inner) :
    ∃ before rest, inner = before ++ 0x22 :: rest ∧ Space before := by
  cases members with
  | nil =>
    rw [SpellMembers] at h
    exact h.head
  | cons =>
    rw [SpellMembers] at h
    obtain ⟨front, back, rfl, hmember, -⟩ := h
    obtain ⟨before, rest, rfl, hbefore⟩ := hmember.head
    exact ⟨before, rest ++ 0x2C :: back, by simp, hbefore⟩

/-- What is read where it stands alone is read with space around it. -/
theorem readValue?_spaced {j : Json} {fuel : Nat} {before text after : Bytes}
    (h : ∀ {rest : Bytes}, Numeral.Closes rest →
      readValue? fuel (text ++ rest) = some (j, rest)) (hbefore : Space before)
    (hafter : Space after) (mark : UInt8) (hmark : mark ∈ [0x2C, 0x5D, 0x7D]) (rest : Bytes) :
    readValue? fuel (before ++ (text ++ after) ++ mark :: rest) =
      some (j, after ++ mark :: rest) := by
  have hclose : Numeral.Closes (mark :: rest) :=
    Numeral.closes_cons (List.mem_append_right [0x20, 0x0A, 0x0D, 0x09] hmark) rest
  rw [List.append_assoc, readValue?_space hbefore, List.append_assoc,
    h (Numeral.closes_space hafter hclose)]

mutual

/-- With fuel for twice its bytes, a value is read, and what follows is left. -/
theorem readValue?_of_spells : ∀ {j : Json} {bytes : Bytes}, j.Spells bytes → ∀ (fuel : Nat)
    {rest : Bytes}, 2 * bytes.length ≤ fuel + 1 → Numeral.Closes rest →
    readValue? (fuel + 1) (bytes ++ rest) = some (j, rest)
  | null, _, h, _, _, _, _ => by
    rw [Spells] at h
    subst h
    rfl
  | bool true, _, h, _, _, _, _ => by
    rw [Spells] at h
    subst h
    rfl
  | bool false, _, h, _, _, _, _ => by
    rw [Spells] at h
    subst h
    rfl
  | number n, _, h, fuel, rest, _, hrest => by
    rw [Spells] at h
    have hread := Numeral.read?_of_spells h hrest
    obtain ⟨b, tail, rfl, hb⟩ := h.head
    rw [List.cons_append] at hread ⊢
    rw [readValue?_numeral hb, hread]
    rfl
  | string text, _, h, fuel, rest, _, _ => by
    rw [Spells] at h
    obtain ⟨inner, rfl, hinner⟩ := h
    rw [List.cons_append, List.append_assoc, List.singleton_append, readValue?_quote,
      readString?_of_spells hinner]
    rfl
  | array [], _, h, fuel, rest, _, _ => by
    rw [Spells] at h
    obtain ⟨inner, rfl, hinner⟩ := h
    rw [SpellItems] at hinner
    rw [List.cons_append, List.append_assoc, List.singleton_append, readValue?_bracket,
      skipSpace_append hinner]
    rfl
  | array (item :: items), _, h, fuel, rest, hfuel, _ => by
    rw [Spells] at h
    obtain ⟨inner, rfl, hinner⟩ := h
    rw [List.length_cons, List.length_append, List.length_singleton] at hfuel
    obtain ⟨fuel, rfl⟩ : ∃ k, fuel = k + 1 := ⟨fuel - 1, by omega⟩
    obtain ⟨before, b, tail, hhead, hbefore, hb⟩ := hinner.head
    have hbytes : inner ++ 0x5D :: rest = before ++ b :: (tail ++ 0x5D :: rest) := by
      simp [hhead]
    rw [List.cons_append, List.append_assoc, List.singleton_append,
      readValue?_array hbytes hbefore hb,
      readItems?_of_spells hinner (by simp) fuel rest (by omega)]
    rfl
  | object [], _, h, fuel, rest, _, _ => by
    rw [Spells] at h
    obtain ⟨inner, rfl, hinner⟩ := h
    rw [SpellMembers] at hinner
    rw [List.cons_append, List.append_assoc, List.singleton_append, readValue?_brace,
      skipSpace_append hinner]
    rfl
  | object (member :: members), _, h, fuel, rest, hfuel, _ => by
    rw [Spells] at h
    obtain ⟨inner, rfl, hinner⟩ := h
    rw [List.length_cons, List.length_append, List.length_singleton] at hfuel
    obtain ⟨fuel, rfl⟩ : ∃ k, fuel = k + 1 := ⟨fuel - 1, by omega⟩
    obtain ⟨before, tail, hhead, hbefore⟩ := hinner.head
    have hbytes : inner ++ 0x7D :: rest = before ++ 0x22 :: (tail ++ 0x7D :: rest) := by
      simp [hhead]
    rw [List.cons_append, List.append_assoc, List.singleton_append,
      readValue?_object hbytes hbefore,
      readMembers?_of_spells hinner (by simp) fuel rest (by omega)]
    rfl

theorem readItems?_of_spells : ∀ {items : List Json} {inner : Bytes}, SpellItems items inner →
    items ≠ [] → ∀ (fuel : Nat) (rest : Bytes), 2 * inner.length + 1 ≤ fuel →
    readItems? (fuel + 1) (inner ++ 0x5D :: rest) = some (items, rest)
  | [item], _, h, _, fuel, rest, hfuel => by
    rw [SpellItems] at h
    obtain ⟨before, text, after, rfl, hbefore, htext, hafter⟩ := h
    simp only [List.length_append] at hfuel
    obtain ⟨fuel, rfl⟩ : ∃ k, fuel = k + 1 := ⟨fuel - 1, by omega⟩
    have hread := readValue?_spaced (readValue?_of_spells htext fuel (by omega)) hbefore hafter
      0x5D (by simp) rest
    exact readItems?_last hread hafter
  | item :: item' :: items, _, h, _, fuel, rest, hfuel => by
    rw [SpellItems] at h
    obtain ⟨_, back, rfl, ⟨before, text, after, rfl, hbefore, htext, hafter⟩, hback⟩ := h
    simp only [List.length_append, List.length_cons] at hfuel
    obtain ⟨fuel, rfl⟩ : ∃ k, fuel = k + 1 := ⟨fuel - 1, by omega⟩
    have hread := readValue?_spaced (readValue?_of_spells htext fuel (by omega)) hbefore hafter
      0x2C (by simp) (back ++ 0x5D :: rest)
    rw [List.append_assoc, List.cons_append, readItems?_more hread hafter,
      readItems?_of_spells hback (by simp) fuel rest (by omega)]
    rfl

theorem readMembers?_of_spells : ∀ {members : List (RawText × Json)} {inner : Bytes},
    SpellMembers members inner → members ≠ [] → ∀ (fuel : Nat) (rest : Bytes),
    2 * inner.length + 1 ≤ fuel →
    readMembers? (fuel + 1) (inner ++ 0x7D :: rest) = some (members, rest)
  | [(key, value)], _, h, _, fuel, rest, hfuel => by
    rw [SpellMembers] at h
    obtain ⟨name, _, rfl, hname, ⟨before, text, after, rfl, hbefore, htext, hafter⟩⟩ := h
    simp only [List.length_append, List.length_cons] at hfuel
    obtain ⟨fuel, rfl⟩ : ∃ k, fuel = k + 1 := ⟨fuel - 1, by omega⟩
    have hread := readValue?_spaced (readValue?_of_spells htext fuel (by omega)) hbefore hafter
      0x7D (by simp) rest
    rw [List.append_assoc, List.cons_append]
    exact readMembers?_last hname hread hafter
  | (key, value) :: member :: members, _, h, _, fuel, rest, hfuel => by
    rw [SpellMembers] at h
    obtain ⟨_, back, rfl, ⟨name, _, rfl, hname, ⟨before, text, after, rfl, hbefore, htext, hafter⟩⟩,
      hback⟩ := h
    simp only [List.length_append, List.length_cons] at hfuel
    obtain ⟨fuel, rfl⟩ : ∃ k, fuel = k + 1 := ⟨fuel - 1, by omega⟩
    have hread := readValue?_spaced (readValue?_of_spells htext fuel (by omega)) hbefore hafter
      0x2C (by simp) (back ++ 0x7D :: rest)
    rw [List.append_assoc, List.cons_append, List.append_assoc, List.cons_append,
      readMembers?_more hname hread hafter,
      readMembers?_of_spells hback (by simp) fuel rest (by omega)]
    rfl

end

/-! ## What is read is spelled -/

theorem spellItems_cons {item : Json} {items : List Json} {front back : Bytes}
    (hne : items ≠ []) (hitem : Spaced (Spells item) front) (hback : SpellItems items back) :
    SpellItems (item :: items) (front ++ 0x2C :: back) := by
  obtain ⟨item', items, rfl⟩ := List.exists_cons_of_ne_nil hne
  rw [SpellItems]
  exact ⟨front, back, rfl, hitem, hback⟩

theorem spellMembers_cons {key : RawText} {value : Json} {members : List (RawText × Json)}
    {front back : Bytes} (hne : members ≠ []) (hmember : Member key (Spells value) front)
    (hback : SpellMembers members back) :
    SpellMembers ((key, value) :: members) (front ++ 0x2C :: back) := by
  obtain ⟨member, members, rfl⟩ := List.exists_cons_of_ne_nil hne
  rw [SpellMembers]
  exact ⟨front, back, rfl, hmember, hback⟩

theorem Spaced.space {P : Bytes → Prop} {before bytes : Bytes} (hbefore : Space before)
    (h : Spaced P bytes) : Spaced P (before ++ bytes) := by
  obtain ⟨before', text, after, rfl, hbefore', htext, hafter⟩ := h
  exact ⟨before ++ before', text, after, by simp, List.forall_mem_append.2 ⟨hbefore, hbefore'⟩,
    htext, hafter⟩

theorem Member.space {key : RawText} {P : Bytes → Prop} {before bytes : Bytes}
    (hbefore : Space before) (h : Member key P bytes) : Member key P (before ++ bytes) := by
  obtain ⟨name, back, rfl, hname, hback⟩ := h
  exact ⟨before ++ name, back, by simp, hname.space hbefore, hback⟩

theorem SpellItems.space {items : List Json} {before inner : Bytes} (hbefore : Space before)
    (hne : items ≠ []) (h : SpellItems items inner) : SpellItems items (before ++ inner) := by
  match items, hne with
  | [item], _ =>
    rw [SpellItems] at h ⊢
    exact h.space hbefore
  | item :: item' :: items, _ =>
    rw [SpellItems] at h ⊢
    obtain ⟨front, back, rfl, hitem, hback⟩ := h
    exact ⟨before ++ front, back, by simp, hitem.space hbefore, hback⟩

theorem SpellMembers.space {members : List (RawText × Json)} {before inner : Bytes}
    (hbefore : Space before) (hne : members ≠ []) (h : SpellMembers members inner) :
    SpellMembers members (before ++ inner) := by
  match members, hne with
  | [(key, value)], _ =>
    rw [SpellMembers] at h ⊢
    exact h.space hbefore
  | (key, value) :: member :: members, _ =>
    rw [SpellMembers] at h ⊢
    obtain ⟨front, back, rfl, hmember, hback⟩ := h
    exact ⟨before ++ front, back, by simp, hmember.space hbefore, hback⟩

/-- With this much fuel, what is read is what the bytes in front spell. -/
structure Sound (fuel : Nat) : Prop where
  value : ∀ {bytes j rest}, readValue? fuel bytes = some (j, rest) →
    ∃ before text, bytes = before ++ (text ++ rest) ∧ Space before ∧ Spells j text
  items : ∀ {bytes items rest}, readItems? fuel bytes = some (items, rest) →
    ∃ inner, bytes = inner ++ 0x5D :: rest ∧ items ≠ [] ∧ SpellItems items inner
  members : ∀ {bytes members rest}, readMembers? fuel bytes = some (members, rest) →
    ∃ inner, bytes = inner ++ 0x7D :: rest ∧ members ≠ [] ∧ SpellMembers members inner

/-- A value has space before it or none. -/
theorem exists_spaced {j : Json} {bytes rest : Bytes} (text : Bytes)
    (h : skipSpace bytes = text ++ rest) (htext : Spells j text) :
    ∃ before text, bytes = before ++ (text ++ rest) ∧ Space before ∧ Spells j text := by
  obtain ⟨before, hbytes, hbefore⟩ := exists_of_skipSpace h
  exact ⟨before, text, hbytes, hbefore, htext⟩

theorem Sound.spells_of_readValue? {fuel : Nat} (h : Sound fuel) {bytes rest : Bytes} {j : Json}
    (hread : readValue? (fuel + 1) bytes = some (j, rest)) :
    ∃ before text, bytes = before ++ (text ++ rest) ∧ Space before ∧ Spells j text := by
  rw [readValue?] at hread
  split at hread
  · next hskip =>
    cases hread
    exact exists_spaced [_, _, _, _] hskip (by rw [Spells])
  · next hskip =>
    cases hread
    exact exists_spaced [_, _, _, _] hskip (by rw [Spells])
  · next hskip =>
    cases hread
    exact exists_spaced [_, _, _, _, _] hskip (by rw [Spells])
  · next hskip =>
    obtain ⟨⟨text, tail⟩, hstring, heq⟩ := Option.map_eq_some_iff.1 hread
    cases heq
    obtain ⟨inner, rfl, hinner⟩ := spells_of_readString? hstring
    refine exists_spaced (0x22 :: (inner ++ [0x22])) (by simpa using hskip) ?_
    rw [Spells]
    exact ⟨inner, rfl, hinner⟩
  · next bytes' hskip =>
    split at hread
    · next hend =>
      cases hread
      obtain ⟨inner, rfl, hspace⟩ := exists_of_skipSpace hend
      refine exists_spaced (0x5B :: (inner ++ [0x5D])) (by simpa using hskip) ?_
      rw [Spells]
      exact ⟨inner, rfl, by rwa [SpellItems]⟩
    · obtain ⟨⟨items, tail⟩, hitems, heq⟩ := Option.map_eq_some_iff.1 hread
      cases heq
      obtain ⟨inner, hinner, hne, hspell⟩ := h.items hitems
      obtain ⟨before, rfl, hbefore⟩ := exists_of_skipSpace hinner
      refine exists_spaced (0x5B :: (before ++ inner ++ [0x5D])) (by simpa using hskip) ?_
      rw [Spells]
      exact ⟨_, rfl, hspell.space hbefore hne⟩
  · next bytes' hskip =>
    split at hread
    · next hend =>
      cases hread
      obtain ⟨inner, rfl, hspace⟩ := exists_of_skipSpace hend
      refine exists_spaced (0x7B :: (inner ++ [0x7D])) (by simpa using hskip) ?_
      rw [Spells]
      exact ⟨inner, rfl, by rwa [SpellMembers]⟩
    · obtain ⟨⟨members, tail⟩, hmembers, heq⟩ := Option.map_eq_some_iff.1 hread
      cases heq
      obtain ⟨inner, hinner, hne, hspell⟩ := h.members hmembers
      obtain ⟨before, rfl, hbefore⟩ := exists_of_skipSpace hinner
      refine exists_spaced (0x7B :: (before ++ inner ++ [0x7D])) (by simpa using hskip) ?_
      rw [Spells]
      exact ⟨_, rfl, hspell.space hbefore hne⟩
  · obtain ⟨⟨n, tail⟩, hnumeral, heq⟩ := Option.map_eq_some_iff.1 hread
    cases heq
    obtain ⟨text, hskip, htext⟩ := Numeral.spells_of_read? hnumeral
    exact exists_spaced text hskip (by rwa [Spells])

theorem Sound.spells_of_readItems? {fuel : Nat} (h : Sound fuel) {bytes rest : Bytes}
    {items : List Json} (hread : readItems? (fuel + 1) bytes = some (items, rest)) :
    ∃ inner, bytes = inner ++ 0x5D :: rest ∧ items ≠ [] ∧ SpellItems items inner := by
  rw [readItems?] at hread
  split at hread
  · cases hread
  · next item tail hitem =>
    obtain ⟨before, text, rfl, hbefore, htext⟩ := h.value hitem
    split at hread
    · next hskip =>
      obtain ⟨⟨items, tail⟩, hitems, heq⟩ := Option.map_eq_some_iff.1 hread
      cases heq
      obtain ⟨inner, rfl, hne, hinner⟩ := h.items hitems
      obtain ⟨after, rfl, hafter⟩ := exists_of_skipSpace hskip
      exact ⟨_, by simp, by simp,
        spellItems_cons hne ⟨before, text, after, rfl, hbefore, htext, hafter⟩ hinner⟩
    · next hskip =>
      cases hread
      obtain ⟨after, rfl, hafter⟩ := exists_of_skipSpace hskip
      refine ⟨before ++ (text ++ after), by simp, by simp, ?_⟩
      rw [SpellItems]
      exact ⟨before, text, after, rfl, hbefore, htext, hafter⟩
    · cases hread

theorem exists_key {fuel : Nat} {bytes : Bytes} (h : (readMembers? (fuel + 1) bytes).isSome) :
    ∃ key name rest, bytes = name ++ 0x3A :: rest ∧ Spaced (Quoted key) name := by
  rw [readMembers?] at h
  split at h
  · next hquote =>
    obtain ⟨before, rfl, hbefore⟩ := exists_of_skipSpace hquote
    split at h
    · cases h
    · next key tail hkey =>
      obtain ⟨inner, rfl, hinner⟩ := spells_of_readString? hkey
      split at h
      · next rest hcolon =>
        obtain ⟨after, rfl, hafter⟩ := exists_of_skipSpace hcolon
        exact ⟨key, before ++ (0x22 :: (inner ++ [0x22]) ++ after), rest, by simp, before, _, after,
          rfl, hbefore, ⟨inner, rfl, hinner⟩, hafter⟩
      · cases h
  · cases h

theorem Sound.spells_of_readMembers? {fuel : Nat} (h : Sound fuel) {bytes rest : Bytes}
    {members : List (RawText × Json)}
    (hread : readMembers? (fuel + 1) bytes = some (members, rest)) :
    ∃ inner, bytes = inner ++ 0x7D :: rest ∧ members ≠ [] ∧ SpellMembers members inner := by
  obtain ⟨key, name, tail, rfl, hname⟩ := exists_key (Option.isSome_of_mem hread)
  rw [readMembers?_key hname] at hread
  split at hread
  · cases hread
  · next value tail hvalue =>
    obtain ⟨before, text, rfl, hbefore, htext⟩ := h.value hvalue
    have hmember {after : Bytes} (hafter : Space after) :
        Member key (Spells value) (name ++ 0x3A :: (before ++ (text ++ after))) :=
      ⟨name, _, rfl, hname, before, text, after, rfl, hbefore, htext, hafter⟩
    split at hread
    · next hskip =>
      obtain ⟨⟨members, tail⟩, hmembers, heq⟩ := Option.map_eq_some_iff.1 hread
      cases heq
      obtain ⟨inner, rfl, hne, hinner⟩ := h.members hmembers
      obtain ⟨after, rfl, hafter⟩ := exists_of_skipSpace hskip
      exact ⟨_, by simp, by simp, spellMembers_cons hne (hmember hafter) hinner⟩
    · next hskip =>
      cases hread
      obtain ⟨after, rfl, hafter⟩ := exists_of_skipSpace hskip
      refine ⟨name ++ 0x3A :: (before ++ (text ++ after)), by simp, by simp, ?_⟩
      rw [SpellMembers]
      exact hmember hafter
    · cases hread

theorem sound (fuel : Nat) : Sound fuel := by
  induction fuel with
  | zero =>
    constructor <;> intro _ _ _ h <;> simp [readValue?, readItems?, readMembers?] at h
  | succ fuel ih =>
    exact ⟨ih.spells_of_readValue?, ih.spells_of_readItems?, ih.spells_of_readMembers?⟩

/-- **The reader takes exactly the texts of the grammar**, each for the value it
spells. -/
theorem read?_eq_some_iff {bytes : Bytes} {j : Json} :
    read? bytes = some j ↔ Spaced (Spells j) bytes := by
  constructor
  · intro h
    unfold read? at h
    split at h
    · next value rest hread =>
      split at h
      · next hrest =>
        cases h
        obtain ⟨before, text, rfl, hbefore, htext⟩ := (sound _).value hread
        have hspace : skipSpace rest = [] := by simpa using hrest
        obtain ⟨after, rfl, hafter⟩ := exists_of_skipSpace hspace
        exact ⟨before, text, after, by simp, hbefore, htext, hafter⟩
      · cases h
    · cases h
  · rintro ⟨before, text, after, rfl, hbefore, htext, hafter⟩
    have hclose : Numeral.Closes after := by
      rw [← List.append_nil after]
      exact Numeral.closes_space hafter nofun
    have hread : readValue? (2 * (before ++ (text ++ after)).length + 2)
        (before ++ (text ++ after)) = some (j, after) := by
      rw [readValue?_space hbefore]
      exact readValue?_of_spells htext _ (by simp; omega) hclose
    have hend : skipSpace after = [] := by
      rw [← List.append_nil after, skipSpace_append hafter]
      rfl
    rw [read?, hread]
    simp only [hend, List.isEmpty_nil, if_true]

end ControlPlane.Json
