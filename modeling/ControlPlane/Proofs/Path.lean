/-
Written pieces of a path and the paths made of them. A written piece holds no
character that separates pieces and stands for one text only, so a path tells
which segments it is of, and the page of a listing which token led to it.
-/
import ControlPlane.Admin.Path
import ControlPlane.Text.Order

namespace ControlPlane

namespace Percent

/-! ## Pieces -/

theorem value?_hexDigit {n : Nat} (h : n < 16) : Hex.value? (hexDigit n) = some n := by
  have : ∀ n < 16, Hex.value? (hexDigit n) = some n := by decide
  exact this n h

theorem isPlain_lt {b : UInt8} (h : isPlain b = true) : b.toNat < 0x80 := by
  simp only [isPlain, Bool.or_eq_true, Bool.and_eq_true, decide_eq_true_eq, beq_iff_eq,
    UInt8.le_iff_toNat_le, ← UInt8.toNat_inj] at h
  simp at h
  omega

/-- The character of a plain byte. -/
theorem toNat_plain {b : UInt8} (h : isPlain b = true) : (Char.ofNat b.toNat).toNat = b.toNat := by
  have hlt := isPlain_lt h
  rw [Char.ofNat, dif_pos (.inl (by omega))]
  rfl

theorem decodeBytes?_encodeByte (b : UInt8) (rest : List Char) :
    decodeBytes? (encodeByte b ++ rest) = (decodeBytes? rest).map (b :: ·) := by
  by_cases hb : isPlain b = true
  · have hchar := toNat_plain hb
    have hne : Char.ofNat b.toNat ≠ '%' := by
      intro he
      have : b = 0x25 := by rw [← UInt8.toNat_inj, ← hchar, he]; rfl
      subst this
      exact absurd hb (by decide)
    simp [encodeByte, hb, decodeBytes?, hne, hchar, isPlain_lt hb]
  · have hlt := b.toNat_lt
    have hbyte : UInt8.ofNat (b.toNat / 16 * 16 + b.toNat % 16) = b := by
      rw [Nat.div_add_mod']; exact UInt8.ofNat_toNat
    simp [encodeByte, hb, decodeBytes?, value?_hexDigit (show b.toNat / 16 < 16 by omega),
      value?_hexDigit (show b.toNat % 16 < 16 by omega), hbyte]

theorem decodeBytes?_encodeBytes (bytes : Bytes) :
    decodeBytes? (encodeBytes bytes) = some bytes := by
  induction bytes with
  | nil => rfl
  | cons b bytes ih =>
    rw [encodeBytes, List.flatMap_cons, decodeBytes?_encodeByte, ← encodeBytes, ih]
    rfl

/-- A written piece stands for one text. -/
theorem encode_inj {s t : String} (h : encode s = encode t) : s = t := by
  have hchars := congrArg String.toList h
  simp only [encode, String.toList_ofList] at hchars
  have hbytes := congrArg decodeBytes? hchars
  rw [decodeBytes?_encodeBytes, decodeBytes?_encodeBytes] at hbytes
  exact Text.encode_injective (Option.some.inj hbytes)

/-- The characters that separate the pieces of a path. -/
def separators : List Char := ['/', '?', '&', '=']

theorem hexDigit_not_separator {n : Nat} (h : n < 16) : hexDigit n ∉ separators := by
  have : ∀ n < 16, hexDigit n ∉ separators := by decide
  exact this n h

theorem encodeByte_not_separator {b : UInt8} {c : Char} (h : c ∈ encodeByte b) :
    c ∉ separators := by
  have hlt := b.toNat_lt
  by_cases hb : isPlain b = true
  · obtain rfl : c = Char.ofNat b.toNat := by simpa [encodeByte, hb] using h
    intro hc
    have hcode : b.toNat ∈ separators.map Char.toNat := by
      rw [← toNat_plain hb]
      exact List.mem_map_of_mem hc
    have hbyte : b ∈ (separators.map Char.toNat).map UInt8.ofNat :=
      List.mem_map.2 ⟨_, hcode, UInt8.ofNat_toNat⟩
    have hall : ((separators.map Char.toNat).map UInt8.ofNat).all (!isPlain ·) = true := by decide
    have hnot := List.all_eq_true.1 hall b hbyte
    rw [hb] at hnot
    cases hnot
  · have hcases : c = '%' ∨ c = hexDigit (b.toNat / 16) ∨ c = hexDigit (b.toNat % 16) := by
      simpa [encodeByte, hb] using h
    rcases hcases with rfl | rfl | rfl
    · decide
    · exact hexDigit_not_separator (by omega)
    · exact hexDigit_not_separator (by omega)

/-- No separator stands in a written piece. -/
theorem not_mem_encode {s : String} {c : Char} (hc : c ∈ separators) :
    c ∉ (encode s).toList := by
  intro h
  simp only [encode, String.toList_ofList, encodeBytes, List.mem_flatMap] at h
  obtain ⟨b, -, hb⟩ := h
  exact encodeByte_not_separator hb hc

end Percent

namespace Admin.Path

/-! ## Paths -/

theorem writeQuery_append (query : List (String × String)) (parameter : String × String) :
    writeQuery (query ++ [parameter]) =
      writeQuery query ++ (if query = [] then "?" else "&") ++ writeParameter parameter := by
  cases query with
  | nil => simp [writeQuery]
  | cons first query =>
    simp only [writeQuery, List.cons_append, List.map_cons, List.map_append, List.map_nil, if_neg,
      reduceCtorEq, not_false_eq_true]
    rw [← List.cons_append, String.intercalate_append_of_ne_nil (by simp) (by simp)]
    simp [String.append_assoc]

/-- A parameter is written at the end, behind `?` if it is the first. -/
theorem write_withQuery (p : Path) (key value : String) :
    (p.withQuery key value).write =
      p.write ++ (if p.query = [] then "?" else "&") ++ key ++ "=" ++ Percent.encode value := by
  simp [write, withQuery, writeQuery_append, writeParameter, String.append_assoc]

/-- Two tokens lead to two pages. -/
theorem page_inj {p : Path} {token token' : Option String}
    (h : (p.page token).write = (p.page token').write) : token = token' := by
  have hne (t : String) : p.write ≠ (p.withQuery "pageToken" t).write := by
    intro he
    rw [write_withQuery, String.append_assoc, String.append_assoc, String.append_assoc] at he
    have hnil := String.append_eq_left_iff.1 he.symm
    have := congrArg String.toList hnil
    split at this <;> simp at this
  cases token with
  | none =>
    cases token' with
    | none => rfl
    | some t' => exact absurd h (hne t')
  | some t =>
    cases token' with
    | none => exact absurd h.symm (hne t)
    | some t' =>
      simp only [page, write_withQuery] at h
      rw [Percent.encode_inj ((String.append_right_inj _).1 h)]

def pieceChars (s : String) : List Char := (Percent.encode s).toList

/-- The part of a path before its query. -/
def frontChars (segments : List String) : List Char := ['/'].intercalate (segments.map pieceChars)

theorem write_toList (p : Path) :
    p.write.toList = frontChars p.segments ++ (writeQuery p.query).toList := by
  rw [write, String.toList_append, String.toList_intercalate, List.map_map]
  rfl

theorem writeQuery_cases (query : List (String × String)) :
    (writeQuery query).toList = [] ∨ ∃ rest, (writeQuery query).toList = '?' :: rest := by
  cases query with
  | nil => exact .inl rfl
  | cons first query => exact .inr ⟨_, by simp only [writeQuery, String.toList_append]; rfl⟩

theorem mem_intercalate {α} {x y : α} :
    ∀ {ls : List (List α)}, y ∈ [x].intercalate ls → y = x ∨ ∃ l ∈ ls, y ∈ l
  | [], h => by simp at h
  | [l], h => .inr ⟨l, by simp, by simpa using h⟩
  | l :: l' :: ls, h => by
    rw [List.intercalate_cons_cons, List.append_assoc, List.mem_append, List.mem_append,
      List.mem_singleton] at h
    rcases h with h | h | h
    · exact .inr ⟨l, by simp, h⟩
    · exact .inl h
    · rcases mem_intercalate h with rfl | ⟨l', hl', hy⟩
      · exact .inl rfl
      · exact .inr ⟨l', List.mem_cons_of_mem _ hl', hy⟩

theorem not_mem_frontChars (segments : List String) : '?' ∉ frontChars segments := by
  intro h
  rcases mem_intercalate h with h | ⟨piece, hpiece, h⟩
  · cases h
  · obtain ⟨s, -, rfl⟩ := List.mem_map.1 hpiece
    exact Percent.not_mem_encode (by decide) h

theorem splitOn_frontChars {segments : List String} (hne : segments ≠ []) :
    (frontChars segments).splitOn '/' = segments.map pieceChars := by
  refine List.splitOn_intercalate '/' ?_ (by simpa using hne)
  intro piece hpiece
  obtain ⟨s, -, rfl⟩ := List.mem_map.1 hpiece
  exact Percent.not_mem_encode (by decide)

theorem takeWhile_write (p : Path) :
    p.write.toList.takeWhile (· ≠ '?') = frontChars p.segments := by
  have hfront : ∀ c ∈ frontChars p.segments, decide (c ≠ '?') = true := fun c hc =>
    decide_eq_true fun he => not_mem_frontChars p.segments (he ▸ hc)
  rw [write_toList, List.takeWhile_append_of_pos hfront]
  rcases writeQuery_cases p.query with h | ⟨rest, h⟩ <;> simp [h]

/-- Paths of different segments are different, whatever their queries. -/
theorem segments_inj {p p' : Path} (hne : p.segments ≠ []) (hne' : p'.segments ≠ [])
    (h : p.write = p'.write) : p.segments = p'.segments := by
  have hsplit := congrArg (fun s => (s.toList.takeWhile (· ≠ '?')).splitOn '/') h
  simp only [takeWhile_write, splitOn_frontChars hne, splitOn_frontChars hne'] at hsplit
  exact (List.map_inj_right fun s t hst => Percent.encode_inj (String.toList_inj.1 hst)).1 hsplit

end Admin.Path
end ControlPlane
