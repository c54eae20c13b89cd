/-
Text that is written as UTF-8 is read back, and nothing else is read as text
(`decode_eq_some_iff`). The scanner is followed byte by byte: a first byte says
how many tails are to come (`lead_ofNat`), each tail adds its six bits, and
after the last one the character is complete. Followed the other way, a scan
that begins with a character has read that character's own bytes.
-/
import ControlPlane.Text.Utf8

namespace ControlPlane.Utf8

theorem scanFrom_single {b : UInt8} {n : Nat} (h : lead b = some ⟨[], n⟩) (rest : Bytes) :
    scanFrom .idle (b :: rest) = some (Char.ofNat n) :: scanFrom .idle rest := by
  simp only [scanFrom, Pending.step, Pending.idle, Pending.start, h, List.singleton_append]

theorem scanFrom_lead {b : UInt8} {r : Range} {wanted : List Range} {bits : Nat}
    (h : lead b = some ⟨r :: wanted, bits⟩) (rest : Bytes) :
    scanFrom .idle (b :: rest) = scanFrom ⟨r :: wanted, bits⟩ rest := by
  simp only [scanFrom, Pending.step, Pending.idle, Pending.start, h, List.nil_append]

theorem scanFrom_tail {r r' : Range} {b : UInt8} (h : r.contains b = true) (wanted : List Range)
    (bits : Nat) (rest : Bytes) :
    scanFrom ⟨r :: r' :: wanted, bits⟩ (b :: rest) =
      scanFrom ⟨r' :: wanted, bits * 64 + b.toNat % 64⟩ rest := by
  simp only [scanFrom, Pending.step, h, if_true, List.nil_append]

theorem scanFrom_last {r : Range} {b : UInt8} (h : r.contains b = true) (bits : Nat)
    (rest : Bytes) :
    scanFrom ⟨[r], bits⟩ (b :: rest) =
      some (Char.ofNat (bits * 64 + b.toNat % 64)) :: scanFrom .idle rest := by
  simp only [scanFrom, Pending.step, h, if_true, List.singleton_append]

theorem contains_ofNat {low high : UInt8} {n : Nat} (hlow : low.toNat ≤ n)
    (hhigh : n ≤ high.toNat) : Range.contains ⟨low, high⟩ (UInt8.ofNat n) = true := by
  have hlt := high.toNat_lt
  simp only [Range.contains, Bool.and_eq_true, decide_eq_true_eq, UInt8.le_iff_toNat_le,
    UInt8.toNat_ofNat', Nat.reducePow]
  omega

theorem lead_ofNat {n : Nat} (h : n < 256) : lead (UInt8.ofNat n) =
    if n < 0x80 then some ⟨[], n⟩
    else if n < 0xC2 then none
    else if n < 0xE0 then some ⟨[.tail], n % 32⟩
    else if n = 0xE0 then some ⟨[⟨0xA0, 0xBF⟩, .tail], 0⟩
    else if n = 0xED then some ⟨[⟨0x80, 0x9F⟩, .tail], 13⟩
    else if n < 0xF0 then some ⟨[.tail, .tail], n % 16⟩
    else if n = 0xF0 then some ⟨[⟨0x90, 0xBF⟩, .tail, .tail], 0⟩
    else if n < 0xF4 then some ⟨[.tail, .tail, .tail], n % 8⟩
    else if n = 0xF4 then some ⟨[⟨0x80, 0x8F⟩, .tail, .tail], 4⟩
    else none := by
  have hn : (UInt8.ofNat n).toNat = n := UInt8.toNat_ofNat_of_lt' h
  simp only [lead, UInt8.lt_iff_toNat_lt, beq_iff_eq, ← UInt8.toNat_inj, hn]
  rfl

theorem toNat_tail (n : Nat) : (UInt8.ofNat (n % 0x40 + 0x80)).toNat % 64 = n % 64 := by
  rw [UInt8.toNat_ofNat_of_lt' (by rw [UInt8.size]; omega)]
  omega

theorem contains_tail (n : Nat) : Range.tail.contains (UInt8.ofNat (n % 0x40 + 0x80)) = true :=
  contains_ofNat (by simp) (by simp; omega)

/-- A character of two bytes. -/
theorem scanFrom_two {n : Nat} (h : 0x80 ≤ n) (h' : n < 0x800) (rest : Bytes) :
    scanFrom .idle (UInt8.ofNat (n / 64 % 0x20 + 0xC0) :: UInt8.ofNat (n % 0x40 + 0x80) :: rest) =
      some (Char.ofNat n) :: scanFrom .idle rest := by
  have hlead : lead (UInt8.ofNat (n / 64 % 0x20 + 0xC0)) = some ⟨[.tail], n / 64⟩ := by
    rw [lead_ofNat (by omega), if_neg (by omega), if_neg (by omega), if_pos (by omega)]
    congr 2
    omega
  have hbits : n / 64 * 64 + n % 64 = n := by omega
  rw [scanFrom_lead hlead, scanFrom_last (contains_tail n), toNat_tail, hbits]

/-- A character of three bytes. The first of them may ask for a narrower second. -/
theorem scanFrom_three {n : Nat} (h : 0x800 ≤ n) (h' : n < 0x10000) (hn : n < 0xD800 ∨ 0xDFFF < n)
    (rest : Bytes) :
    scanFrom .idle (UInt8.ofNat (n / 4096 % 0x10 + 0xE0) :: UInt8.ofNat (n / 64 % 0x40 + 0x80) ::
        UInt8.ofNat (n % 0x40 + 0x80) :: rest) =
      some (Char.ofNat n) :: scanFrom .idle rest := by
  have hlead : ∃ low high : UInt8, low.toNat ≤ n / 64 % 0x40 + 0x80 ∧
      n / 64 % 0x40 + 0x80 ≤ high.toNat ∧ lead (UInt8.ofNat (n / 4096 % 0x10 + 0xE0)) =
        some ⟨[⟨low, high⟩, .tail], n / 4096⟩ := by
    rw [lead_ofNat (by omega), if_neg (by omega), if_neg (by omega), if_neg (by omega)]
    by_cases he0 : n / 4096 = 0
    · exact ⟨0xA0, 0xBF, by simp; omega, by simp; omega, by simp [he0]⟩
    by_cases hed : n / 4096 = 13
    · exact ⟨0x80, 0x9F, by simp, by simp; omega, by simp [hed]⟩
    rw [if_neg (by omega), if_neg (by omega), if_pos (by omega)]
    exact ⟨0x80, 0xBF, by simp, by simp; omega, by simp [Range.tail]; omega⟩
  obtain ⟨low, high, hlow, hhigh, hlead⟩ := hlead
  have hbits : (n / 4096 * 64 + n / 64 % 64) * 64 + n % 64 = n := by omega
  rw [scanFrom_lead hlead, scanFrom_tail (contains_ofNat hlow hhigh),
    scanFrom_last (contains_tail n), toNat_tail, toNat_tail, hbits]

/-- A character of four bytes. -/
theorem scanFrom_four {n : Nat} (h : 0x10000 ≤ n) (h' : n < 0x110000) (rest : Bytes) :
    scanFrom .idle (UInt8.ofNat (n / 262144 % 0x08 + 0xF0) ::
        UInt8.ofNat (n / 4096 % 0x40 + 0x80) :: UInt8.ofNat (n / 64 % 0x40 + 0x80) ::
        UInt8.ofNat (n % 0x40 + 0x80) :: rest) =
      some (Char.ofNat n) :: scanFrom .idle rest := by
  have hlead : ∃ low high : UInt8, low.toNat ≤ n / 4096 % 0x40 + 0x80 ∧
      n / 4096 % 0x40 + 0x80 ≤ high.toNat ∧ lead (UInt8.ofNat (n / 262144 % 0x08 + 0xF0)) =
        some ⟨[⟨low, high⟩, .tail, .tail], n / 262144⟩ := by
    rw [lead_ofNat (by omega), if_neg (by omega), if_neg (by omega), if_neg (by omega),
      if_neg (by omega), if_neg (by omega), if_neg (by omega)]
    by_cases hf0 : n / 262144 = 0
    · exact ⟨0x90, 0xBF, by simp; omega, by simp; omega, by simp [hf0]⟩
    by_cases hf4 : n / 262144 = 4
    · exact ⟨0x80, 0x8F, by simp, by simp; omega, by simp [hf4]⟩
    rw [if_neg (by omega), if_pos (by omega)]
    exact ⟨0x80, 0xBF, by simp, by simp; omega, by simp [Range.tail]; omega⟩
  obtain ⟨low, high, hlow, hhigh, hlead⟩ := hlead
  have hbits : ((n / 262144 * 64 + n / 4096 % 64) * 64 + n / 64 % 64) * 64 + n % 64 = n := by omega
  rw [scanFrom_lead hlead, scanFrom_tail (contains_ofNat hlow hhigh),
    scanFrom_tail (contains_tail _), scanFrom_last (contains_tail n), toNat_tail, toNat_tail,
    toNat_tail, hbits]

theorem scanFrom_encodeChar (c : Char) (rest : Bytes) :
    scanFrom .idle (String.utf8EncodeChar c ++ rest) = some c :: scanFrom .idle rest := by
  have hvalid := c.valid
  simp only [UInt32.isValidChar, Nat.isValidChar] at hvalid
  have hchar : Char.ofNat c.val.toNat = c := Char.ofNat_toNat c
  fun_cases String.utf8EncodeChar
  case case1 v h =>
    have hlead : lead (UInt8.ofNat v) = some ⟨[], v⟩ := by
      rw [lead_ofNat (by omega), if_pos (by omega)]
    rw [List.singleton_append, scanFrom_single hlead, hchar]
  case case2 v h h' =>
    exact (scanFrom_two (by omega) (by omega) rest).trans (by rw [hchar])
  case case3 v h h' h'' =>
    exact (scanFrom_three (by omega) (by omega) (by omega) rest).trans (by rw [hchar])
  case case4 v h h' h'' =>
    exact (scanFrom_four (by omega) (by omega) rest).trans (by rw [hchar])

theorem scan_encode (s : String) : scan (encode s) = s.toList.map some := by
  rw [scan, encode]
  induction s.toList with
  | nil => rfl
  | cons c cs ih => rw [List.flatMap_cons, scanFrom_encodeChar, ih, List.map_cons]

/-- **Text that is written is read back.** -/
theorem decode_encode (s : String) : decode (encode s) = some s := by
  have hall : (s.toList.map some).mapM id = some (s.toList.map id) := by
    rw [List.mapM_map]
    exact List.mapM_pure (f := id)
  rw [List.map_id] at hall
  rw [decode, scan_encode, hall, Option.map_some, String.ofList_toList]

/-! ## What is read as text -/

/-- What a byte that begins a character says of it. -/
inductive Leads (b : UInt8) : Pending → Prop
  | one : b.toNat < 0x80 → Leads b ⟨[], b.toNat⟩
  | two : 0xC2 ≤ b.toNat → b.toNat < 0xE0 → Leads b ⟨[.tail], b.toNat % 32⟩
  | three {low high : UInt8} : 0xE0 ≤ b.toNat → b.toNat < 0xF0 → 0x80 ≤ low.toNat →
      high.toNat ≤ 0xBF → (b.toNat = 0xE0 → 0xA0 ≤ low.toNat) →
      (b.toNat = 0xED → high.toNat ≤ 0x9F) → Leads b ⟨[⟨low, high⟩, .tail], b.toNat % 16⟩
  | four {low high : UInt8} : 0xF0 ≤ b.toNat → b.toNat < 0xF5 → 0x80 ≤ low.toNat →
      high.toNat ≤ 0xBF → (b.toNat = 0xF0 → 0x90 ≤ low.toNat) →
      (b.toNat = 0xF4 → high.toNat ≤ 0x8F) → Leads b ⟨[⟨low, high⟩, .tail, .tail], b.toNat % 8⟩

theorem leads_of_lead {b : UInt8} {p : Pending} (h : lead b = some p) : Leads b p := by
  have hb := b.toNat_lt
  rw [← UInt8.ofNat_toNat (x := b), lead_ofNat hb] at h
  split at h
  · next hone => cases h; exact .one hone
  split at h
  · cases h
  split at h
  · next htwo => cases h; exact .two (by omega) htwo
  split at h
  · next he0 =>
    cases h
    have hthree : Leads b ⟨[⟨0xA0, 0xBF⟩, .tail], b.toNat % 16⟩ :=
      .three (by omega) (by omega) (by decide) (by decide) (fun _ => by decide) (by omega)
    rwa [he0] at hthree
  split at h
  · next hed =>
    cases h
    have hthree : Leads b ⟨[⟨0x80, 0x9F⟩, .tail], b.toNat % 16⟩ :=
      .three (by omega) (by omega) (by decide) (by decide) (by omega) (fun _ => by decide)
    rwa [hed] at hthree
  split at h
  · cases h
    exact .three (by omega) (by omega) (by decide) (by decide) (by omega) (by omega)
  split at h
  · next hf0 =>
    cases h
    have hfour : Leads b ⟨[⟨0x90, 0xBF⟩, .tail, .tail], b.toNat % 8⟩ :=
      .four (by omega) (by omega) (by decide) (by decide) (fun _ => by decide) (by omega)
    rwa [hf0] at hfour
  split at h
  · cases h
    exact .four (by omega) (by omega) (by decide) (by decide) (by omega) (by omega)
  split at h
  · next hf4 =>
    cases h
    have hfour : Leads b ⟨[⟨0x80, 0x8F⟩, .tail, .tail], b.toNat % 8⟩ :=
      .four (by omega) (by omega) (by decide) (by decide) (by omega) (fun _ => by decide)
    rwa [hf4] at hfour
  · cases h

theorem scanFrom_last_inv {r : Range} {bits : Nat} {bytes : Bytes} {c : Char}
    {out : List (Option Char)} (h : scanFrom ⟨[r], bits⟩ bytes = some c :: out) :
    ∃ b rest, bytes = b :: rest ∧ r.contains b = true ∧
      c = Char.ofNat (bits * 64 + b.toNat % 64) ∧ scanFrom .idle rest = out := by
  cases bytes with
  | nil => simp [scanFrom] at h
  | cons b rest =>
    by_cases hb : r.contains b = true
    · rw [scanFrom_last hb, List.cons.injEq, Option.some.injEq] at h
      exact ⟨b, rest, rfl, hb, h.1.symm, h.2⟩
    · simp [scanFrom, Pending.step, hb] at h

theorem scanFrom_tail_inv {r r' : Range} {wanted : List Range} {bits : Nat} {bytes : Bytes}
    {c : Char} {out : List (Option Char)}
    (h : scanFrom ⟨r :: r' :: wanted, bits⟩ bytes = some c :: out) :
    ∃ b rest, bytes = b :: rest ∧ r.contains b = true ∧
      scanFrom ⟨r' :: wanted, bits * 64 + b.toNat % 64⟩ rest = some c :: out := by
  cases bytes with
  | nil => simp [scanFrom] at h
  | cons b rest =>
    by_cases hb : r.contains b = true
    · rw [scanFrom_tail hb] at h
      exact ⟨b, rest, rfl, hb, h⟩
    · simp [scanFrom, Pending.step, hb] at h

theorem contains_iff {low high b : UInt8} :
    Range.contains ⟨low, high⟩ b = true ↔ low.toNat ≤ b.toNat ∧ b.toNat ≤ high.toNat := by
  simp only [Range.contains, Bool.and_eq_true, decide_eq_true_eq, UInt8.le_iff_toNat_le]

theorem val_ofNat {n : Nat} (h : n.isValidChar) : (Char.ofNat n).val.toNat = n := by
  have hn : n < UInt32.size := by
    rcases h with h | ⟨-, h⟩ <;> rw [UInt32.size] <;> omega
  rw [Char.ofNat, dif_pos h]
  exact UInt32.toNat_ofNatLT

/-- A byte that is made of the right bits. -/
theorem ofNat_eq {n : Nat} {b : UInt8} (h : n = b.toNat) : UInt8.ofNat n = b := by
  rw [h, UInt8.ofNat_toNat]

theorem tail_bounds {t : UInt8} (h : Range.tail.contains t = true) :
    0x80 ≤ t.toNat ∧ t.toNat ≤ 0xBF :=
  contains_iff.1 h

theorem encodeChar_one {b : UInt8} (h : b.toNat < 0x80) :
    String.utf8EncodeChar (Char.ofNat b.toNat) = [b] := by
  have hval : (Char.ofNat b.toNat).val.toNat = b.toNat := val_ofNat (.inl (by omega))
  simp only [String.utf8EncodeChar, hval]
  rw [if_pos (by omega), UInt8.ofNat_toNat]

theorem encodeChar_two {b t : UInt8} (hlow : 0xC2 ≤ b.toNat) (hhigh : b.toNat < 0xE0)
    (ht : Range.tail.contains t = true) :
    String.utf8EncodeChar (Char.ofNat (b.toNat % 32 * 64 + t.toNat % 64)) = [b, t] := by
  obtain ⟨ht, ht'⟩ := tail_bounds ht
  have hvalid : Nat.isValidChar (b.toNat % 32 * 64 + t.toNat % 64) := .inl (by omega)
  simp only [String.utf8EncodeChar, val_ofNat hvalid]
  rw [if_neg (by omega), if_pos (by omega), ofNat_eq (b := b) (by omega),
    ofNat_eq (b := t) (by omega)]

/-- The range of the second byte keeps out what two bytes can hold, and the
surrogates. -/
theorem encodeChar_three {b t u low high : UInt8} (hlow : 0xE0 ≤ b.toNat) (hhigh : b.toNat < 0xF0)
    (hfirst : 0x80 ≤ low.toNat) (hlast : high.toNat ≤ 0xBF)
    (hshort : b.toNat = 0xE0 → 0xA0 ≤ low.toNat) (hsurrogate : b.toNat = 0xED → high.toNat ≤ 0x9F)
    (ht : Range.contains ⟨low, high⟩ t = true) (hu : Range.tail.contains u = true) :
    String.utf8EncodeChar
      (Char.ofNat ((b.toNat % 16 * 64 + t.toNat % 64) * 64 + u.toNat % 64)) = [b, t, u] := by
  obtain ⟨ht, ht'⟩ := contains_iff.1 ht
  obtain ⟨hu, hu'⟩ := tail_bounds hu
  have hvalid : Nat.isValidChar ((b.toNat % 16 * 64 + t.toNat % 64) * 64 + u.toNat % 64) := by
    rw [Nat.isValidChar]
    omega
  simp only [String.utf8EncodeChar, val_ofNat hvalid]
  rw [if_neg (by omega), if_neg (by omega), if_pos (by omega), ofNat_eq (b := b) (by omega),
    ofNat_eq (b := t) (by omega), ofNat_eq (b := u) (by omega)]

/-- The range of the second byte keeps out what three bytes can hold, and what is
past the last code point. -/
theorem encodeChar_four {b t u v low high : UInt8} (hlow : 0xF0 ≤ b.toNat) (hhigh : b.toNat < 0xF5)
    (hfirst : 0x80 ≤ low.toNat) (hlast : high.toNat ≤ 0xBF)
    (hshort : b.toNat = 0xF0 → 0x90 ≤ low.toNat) (hpast : b.toNat = 0xF4 → high.toNat ≤ 0x8F)
    (ht : Range.contains ⟨low, high⟩ t = true) (hu : Range.tail.contains u = true)
    (hv : Range.tail.contains v = true) :
    String.utf8EncodeChar (Char.ofNat
      (((b.toNat % 8 * 64 + t.toNat % 64) * 64 + u.toNat % 64) * 64 + v.toNat % 64)) =
      [b, t, u, v] := by
  obtain ⟨ht, ht'⟩ := contains_iff.1 ht
  obtain ⟨hu, hu'⟩ := tail_bounds hu
  obtain ⟨hv, hv'⟩ := tail_bounds hv
  have hvalid : Nat.isValidChar
      (((b.toNat % 8 * 64 + t.toNat % 64) * 64 + u.toNat % 64) * 64 + v.toNat % 64) := by
    rw [Nat.isValidChar]
    omega
  simp only [String.utf8EncodeChar, val_ofNat hvalid]
  rw [if_neg (by omega), if_neg (by omega), if_neg (by omega), ofNat_eq (b := b) (by omega),
    ofNat_eq (b := t) (by omega), ofNat_eq (b := u) (by omega), ofNat_eq (b := v) (by omega)]

/-- A scan that begins with a character has read the character's own bytes. -/
theorem encodeChar_of_scan {bytes : Bytes} {c : Char} {out : List (Option Char)}
    (h : scanFrom .idle bytes = some c :: out) :
    ∃ rest, bytes = String.utf8EncodeChar c ++ rest ∧ scanFrom .idle rest = out := by
  cases bytes with
  | nil => simp [scanFrom, Pending.idle] at h
  | cons b bytes =>
    cases hlead : lead b with
    | none => simp [scanFrom, Pending.step, Pending.idle, Pending.start, hlead] at h
    | some p =>
      cases leads_of_lead hlead with
      | one hone =>
        rw [scanFrom_single hlead, List.cons.injEq, Option.some.injEq] at h
        obtain ⟨rfl, hout⟩ := h
        exact ⟨bytes, by rw [encodeChar_one hone]; rfl, hout⟩
      | two hlow hhigh =>
        rw [scanFrom_lead hlead] at h
        obtain ⟨t, rest, rfl, ht, rfl, hout⟩ := scanFrom_last_inv h
        exact ⟨rest, by rw [encodeChar_two hlow hhigh ht]; rfl, hout⟩
      | three hlow hhigh hfirst hlast hshort hsurrogate =>
        rw [scanFrom_lead hlead] at h
        obtain ⟨t, rest, rfl, ht, h⟩ := scanFrom_tail_inv h
        obtain ⟨u, rest, rfl, hu, rfl, hout⟩ := scanFrom_last_inv h
        refine ⟨rest, ?_, hout⟩
        rw [encodeChar_three hlow hhigh hfirst hlast hshort hsurrogate ht hu]
        rfl
      | four hlow hhigh hfirst hlast hshort hpast =>
        rw [scanFrom_lead hlead] at h
        obtain ⟨t, rest, rfl, ht, h⟩ := scanFrom_tail_inv h
        obtain ⟨u, rest, rfl, hu, h⟩ := scanFrom_tail_inv h
        obtain ⟨v, rest, rfl, hv, rfl, hout⟩ := scanFrom_last_inv h
        refine ⟨rest, ?_, hout⟩
        rw [encodeChar_four hlow hhigh hfirst hlast hshort hpast ht hu hv]
        rfl

theorem Pending.start_progress (b : UInt8) : (start b).1 ≠ [] ∨ (start b).2.wanted ≠ [] := by
  unfold start
  split
  · exact .inl (by simp)
  · exact .inl (by simp)
  · next p hne _ =>
    refine .inr fun hnil => ?_
    obtain ⟨wanted, bits⟩ := p
    exact hne bits (congrArg (Pending.mk · bits) hnil)

theorem Pending.step_progress (p : Pending) (b : UInt8) :
    (p.step b).1 ≠ [] ∨ (p.step b).2.wanted ≠ [] := by
  unfold step
  split
  · exact start_progress b
  · next r rest _ =>
    split
    · split
      · exact .inl (by simp)
      · next hne => exact .inr hne
    · exact .inl (by simp)

/-- Each byte shows in the scan, at once or when the character begun ends. -/
theorem scanFrom_ne_nil : ∀ {bytes : Bytes} {p : Pending}, p.wanted ≠ [] ∨ bytes ≠ [] →
    scanFrom p bytes ≠ []
  | [], p, h => by
    have hwanted : p.wanted ≠ [] := by simpa using h
    simp [scanFrom, hwanted]
  | b :: bytes, p, _ => by
    simp only [scanFrom, ne_eq, List.append_eq_nil_iff, not_and]
    intro hout
    rcases p.step_progress b with hshown | hwanted
    · exact absurd hout hshown
    · exact scanFrom_ne_nil (.inl hwanted)

theorem encode_of_scan : ∀ {cs : List Char} {bytes : Bytes}, scan bytes = cs.map some →
    bytes = cs.flatMap String.utf8EncodeChar
  | [], [], _ => rfl
  | [], b :: bytes, h => absurd h (scanFrom_ne_nil (.inr (by simp)))
  | c :: cs, bytes, h => by
    obtain ⟨rest, rfl, hrest⟩ := encodeChar_of_scan h
    rw [List.flatMap_cons, ← encode_of_scan hrest]

theorem map_some_of_mapM_id : ∀ {cs : List (Option Char)} {ds : List Char},
    cs.mapM id = some ds → cs = ds.map some
  | [], ds, h => by
    cases h
    rfl
  | c :: cs, ds, h => by
    simp only [List.mapM_cons, Option.bind_eq_bind, Option.bind_eq_some_iff, id_eq,
      Option.pure_def, Option.some.injEq] at h
    obtain ⟨d, rfl, ds, hds, rfl⟩ := h
    rw [map_some_of_mapM_id hds, List.map_cons]

/-- **Bytes are read as the text whose bytes they are**, and as none if there is
no such text. -/
theorem decode_eq_some_iff {bytes : Bytes} {s : String} :
    decode bytes = some s ↔ encode s = bytes := by
  constructor
  · intro h
    obtain ⟨cs, hcs, rfl⟩ := Option.map_eq_some_iff.1 h
    rw [encode, String.toList_ofList]
    exact (encode_of_scan (map_some_of_mapM_id hcs)).symm
  · rintro rfl
    exact decode_encode s

end ControlPlane.Utf8
