/-
What bytes on the wire spell, told without a reader. A number has its bits in
groups of seven, a field is a key and what stands behind it, and a message is
any sequence of fields. `read?` takes exactly the bytes that spell fields, and
takes them for those (`read?_eq_some_iff`); `write` is one way to spell them.
A number may have more groups than it needs, so it is not the only one.
-/
import ControlPlane.Legacy.Wire

namespace ControlPlane.Wire

/-! ## The grammar -/

/-- A number in groups of seven bits, the lowest first: bytes that have the high
bit, and one that has not. -/
inductive Groups : Bytes → Nat → Prop
  | last {b : UInt8} : b.toNat < 128 → Groups [b] b.toNat
  | more {b : UInt8} {bytes : Bytes} {n : Nat} : 128 ≤ b.toNat → Groups bytes n →
      Groups (b :: bytes) (b.toNat - 128 + 128 * n)

/-- A number of 64 bits in at most ten groups. -/
structure Varint (bytes : Bytes) (n : Nat) : Prop where
  groups : Groups bytes n
  short : bytes.length ≤ 10
  fits : n < UInt64.size

/-- The key of a field. It has 32 bits, and fields are numbered from one. -/
structure Key (bytes : Bytes) (number : Nat) (kind : Kind) : Prop where
  varint : Varint bytes (number * 8 + kind.number)
  numbered : 1 ≤ number
  fits : number * 8 + kind.number < UInt32.size

/-- Fields one after the other, each spelled as `P` has it. -/
inductive Sequence (P : Field → Bytes → Prop) : List Field → Bytes → Prop
  | nil : Sequence P [] []
  | cons {field : Field} {fields : List Field} {front rest : Bytes} :
      P field front → Sequence P fields rest → Sequence P (field :: fields) (front ++ rest)

/-- What stands behind a key, where `nested` tells how the fields of a group are
spelled. A group ends with a key of its own number. -/
inductive Body (nested : Field → Bytes → Prop) (number : Nat) : Kind → Payload → Bytes → Prop
  | varint {bytes : Bytes} {n : Nat} : Varint bytes n →
      Body nested number .varint (.varint n) bytes
  | fixed64 {bytes : Bytes} : bytes.length = 8 →
      Body nested number .fixed64 (.fixed64 bytes) bytes
  | fixed32 {bytes : Bytes} : bytes.length = 4 →
      Body nested number .fixed32 (.fixed32 bytes) bytes
  | delimited {count value : Bytes} : Varint count value.length →
      Body nested number .delimited (.delimited value) (count ++ value)
  | group {fields : List Field} {inner stop : Bytes} : Sequence nested fields inner →
      Key stop number .endGroup → Body nested number .startGroup (.group fields) (inner ++ stop)

/-- A key and what stands behind it, which `B` tells. -/
inductive Keyed (B : Nat → Kind → Payload → Bytes → Prop) : Field → Bytes → Prop
  | mk {number : Nat} {kind : Kind} {payload : Payload} {front body : Bytes} :
      Key front number kind → B number kind payload body →
      Keyed B (number, payload) (front ++ body)

/-- What stands behind a key in which groups nest less deep than `depth`. -/
def IsBody : (depth : Nat) → (number : Nat) → Kind → Payload → Bytes → Prop
  | 0, _, _, _, _ => False
  | depth + 1, number, kind, payload, bytes =>
    Body (Keyed (IsBody depth)) number kind payload bytes

/-- The bytes spell these fields. -/
def Spells (fields : List Field) (bytes : Bytes) : Prop :=
  Sequence (Keyed (IsBody depthLimit)) fields bytes

/-! ## Reading numbers -/

theorem Groups.length_pos {bytes : Bytes} {n : Nat} (h : Groups bytes n) : 0 < bytes.length := by
  cases h <;> simp

theorem Groups.read {front : Bytes} {n : Nat} (h : Groups front n) :
    ∀ {more : Nat}, front.length ≤ more + 1 → n < 2 * Nat.pow 128 more →
      ∀ rest, readVarintGroups? more (front ++ rest) = some (n, rest) := by
  induction h with
  | @last b hb =>
    intro more _ hn rest
    cases more with
    | zero =>
      have hbit : b < 2 := by
        rw [UInt8.lt_iff_toNat_lt]
        exact hn
      simp [readVarintGroups?, hbit]
    | succ more =>
      have hlow : b < 128 := UInt8.lt_iff_toNat_lt.2 hb
      simp [readVarintGroups?, hlow]
  | @more b bytes n hb hgroups ih =>
    intro more hlength hn rest
    have hpos := hgroups.length_pos
    rw [List.length_cons] at hlength
    cases more with
    | zero => omega
    | succ more =>
      have hhigh : ¬ b < 128 := by
        rw [UInt8.lt_iff_toNat_lt]
        exact Nat.not_lt.2 hb
      have hpow : Nat.pow 128 (more + 1) = Nat.pow 128 more * 128 := rfl
      have hfits : n < 2 * Nat.pow 128 more := by omega
      simp only [List.cons_append, readVarintGroups?, if_neg hhigh, ih (by omega) hfits rest]

theorem groups_of_read : ∀ {more : Nat} {bytes : Bytes} {n : Nat} {rest : Bytes},
    readVarintGroups? more bytes = some (n, rest) →
    ∃ front, bytes = front ++ rest ∧ Groups front n ∧ front.length ≤ more + 1 ∧
      n < 2 * Nat.pow 128 more
  | _, [], _, _, h => by simp [readVarintGroups?] at h
  | 0, b :: bytes, n, rest, h => by
    simp only [readVarintGroups?] at h
    split at h
    · next hbit =>
      cases h
      rw [UInt8.lt_iff_toNat_lt] at hbit
      have hbit : b.toNat < 2 := hbit
      exact ⟨[b], rfl, .last (by omega), Nat.le_refl _, hbit⟩
    · cases h
  | more + 1, b :: bytes, n, rest, h => by
    have hpow : Nat.pow 128 (more + 1) = Nat.pow 128 more * 128 := rfl
    have hpos : 0 < Nat.pow 128 more := Nat.pow_pos (by decide)
    have hbyte := b.toNat_lt
    simp only [readVarintGroups?] at h
    split at h
    · next hlow =>
      cases h
      have hlow : b.toNat < 128 := UInt8.lt_iff_toNat_lt.1 hlow
      exact ⟨[b], rfl, .last hlow, by simp, by omega⟩
    · next hhigh =>
      rw [UInt8.lt_iff_toNat_lt] at hhigh
      have hhigh : 128 ≤ b.toNat := Nat.not_lt.1 hhigh
      cases hread : readVarintGroups? more bytes with
      | none => rw [hread] at h; cases h
      | some p =>
        obtain ⟨high, tail⟩ := p
        rw [hread] at h
        cases h
        obtain ⟨front, rfl, hgroups, hlength, hfits⟩ := groups_of_read hread
        exact ⟨b :: front, rfl, .more hhigh hgroups, by simpa using hlength, by omega⟩

/-- Ten groups, of which the tenth has one bit, are 64 bits. -/
theorem readVarint?_eq_some {bytes rest : Bytes} {n : Nat} :
    readVarint? bytes = some (n, rest) ↔ ∃ front, bytes = front ++ rest ∧ Varint front n := by
  have hsize : 2 * Nat.pow 128 9 = UInt64.size := rfl
  constructor
  · intro h
    obtain ⟨front, hbytes, hgroups, hlength, hfits⟩ := groups_of_read h
    exact ⟨front, hbytes, hgroups, hlength, hsize ▸ hfits⟩
  · rintro ⟨front, rfl, hgroups, hlength, hfits⟩
    exact hgroups.read hlength (hsize ▸ hfits) rest

/-! ## Reading keys -/

theorem Kind.number_lt (kind : Kind) : kind.number < 6 := by cases kind <;> decide

theorem Kind.ofNumber?_eq_some {n : Nat} {kind : Kind} :
    ofNumber? n = some kind ↔ n = kind.number := by
  constructor
  · intro h
    unfold ofNumber? at h
    split at h <;> cases h <;> rfl
  · rintro rfl
    cases kind <;> rfl

theorem readKey?_eq_some {bytes rest : Bytes} {number : Nat} {kind : Kind} :
    readKey? bytes = some (number, kind, rest) ↔
      ∃ front, bytes = front ++ rest ∧ Key front number kind := by
  constructor
  · intro h
    unfold readKey? at h
    split at h
    · cases h
    · next n tail hread =>
      split at h
      · cases h
      · next hrange =>
        obtain ⟨kind', hkind, heq⟩ := Option.map_eq_some_iff.1 h
        cases heq
        obtain ⟨front, hbytes, hvarint⟩ := readVarint?_eq_some.1 hread
        have hn : n = n / 8 * 8 + kind.number := by
          have hmod := Kind.ofNumber?_eq_some.1 hkind
          omega
        rw [not_or, Nat.not_le, Nat.not_lt] at hrange
        exact ⟨front, hbytes, hn ▸ hvarint, by omega, hn ▸ hrange.1⟩
  · rintro ⟨front, rfl, hvarint, hnumbered, hfits⟩
    have hkind := kind.number_lt
    have hread : readVarint? (front ++ rest) = some (number * 8 + kind.number, rest) :=
      readVarint?_eq_some.2 ⟨front, rfl, hvarint⟩
    have hmod : (number * 8 + kind.number) % 8 = kind.number := by omega
    have hdiv : (number * 8 + kind.number) / 8 = number := by omega
    simp only [readKey?, hread]
    rw [if_neg (by omega), hmod, hdiv, Kind.ofNumber?_eq_some.2 rfl, Option.map_some]

/-! ## Reading fields -/

theorem take?_eq_some {count : Nat} {bytes value rest : Bytes} :
    take? count bytes = some (value, rest) ↔ bytes = value ++ rest ∧ value.length = count := by
  unfold take?
  constructor
  · intro h
    split at h
    · next hle =>
      rw [List.splitAt_eq] at h
      cases h
      exact ⟨(List.take_append_drop count bytes).symm, List.length_take_of_le hle⟩
    · cases h
  · rintro ⟨rfl, rfl⟩
    rw [if_pos (by simp), List.splitAt_eq, List.take_left, List.drop_left]

/-- The reader takes the bodies that `B` tells of, and takes them for those. -/
structure Reads (readBody? : Nat → Kind → Bytes → Option (Payload × Bytes))
    (B : Nat → Kind → Payload → Bytes → Prop) : Prop where
  sound : ∀ {number kind bytes payload rest}, readBody? number kind bytes = some (payload, rest) →
    ∃ body, bytes = body ++ rest ∧ B number kind payload body
  complete : ∀ {number kind payload body}, B number kind payload body →
    ∀ rest, readBody? number kind (body ++ rest) = some (payload, rest)
  /-- No field is one that ends a group. -/
  ends : ∀ {number payload body}, ¬ B number .endGroup payload body

/-- What stands behind the last of some fields: nothing at all, or the end of
their group. -/
def Closes : (stop : Option Nat) → (closing rest : Bytes) → Prop
  | none, closing, rest => closing = [] ∧ rest = []
  | some number, closing, _ => Key closing number .endGroup

section

variable {readBody? : Nat → Kind → Bytes → Option (Payload × Bytes)}
  {B : Nat → Kind → Payload → Bytes → Prop} {stop : Option Nat} {fields : List Field}
  {bytes inner closing rest : Bytes}

theorem Key.length_pos {front : Bytes} {number : Nat} {kind : Kind} (h : Key front number kind) :
    0 < front.length :=
  h.varint.groups.length_pos

theorem Key.not_isEmpty {front : Bytes} {number : Nat} {kind : Kind} (h : Key front number kind)
    (rest : Bytes) : ¬ (front ++ rest).isEmpty = true := by
  have hpos := h.length_pos
  intro hempty
  rw [List.isEmpty_iff, List.append_eq_nil_iff, ← List.length_eq_zero_iff] at hempty
  omega

theorem Keyed.read (h : Reads readBody? B) {field : Field} {front : Bytes}
    (hfield : Keyed B field front) {fuel : Nat}
    (hrest : readFields? readBody? stop fuel bytes = some (fields, rest)) :
    readFields? readBody? stop (fuel + 1) (front ++ bytes) = some (field :: fields, rest) := by
  obtain @⟨number, kind, payload, key, body, hkey, hbody⟩ := hfield
  have hread : readKey? (key ++ (body ++ bytes)) = some (number, kind, body ++ bytes) :=
    readKey?_eq_some.2 ⟨key, rfl, hkey⟩
  rw [List.append_assoc, readFields?, if_neg (hkey.not_isEmpty _), hread]
  cases kind with
  | endGroup => exact absurd hbody h.ends
  | _ => simp only [h.complete hbody, hrest]

theorem Closes.read (h : Closes stop closing rest) (fuel : Nat) :
    readFields? readBody? stop (fuel + 1) (closing ++ rest) = some ([], rest) := by
  cases stop with
  | none =>
    obtain ⟨rfl, rfl⟩ := h
    rfl
  | some number =>
    have hkey : Key closing number .endGroup := h
    have hread : readKey? (closing ++ rest) = some (number, .endGroup, rest) :=
      readKey?_eq_some.2 ⟨closing, rfl, hkey⟩
    rw [readFields?, if_neg (hkey.not_isEmpty _), hread]
    simp

/-- Fields are read up to what closes them. -/
theorem Sequence.read (h : Reads readBody? B) (hfields : Sequence (Keyed B) fields inner)
    (hclose : Closes stop closing rest) : ∀ {fuel : Nat},
      (inner ++ (closing ++ rest)).length < fuel →
      readFields? readBody? stop fuel (inner ++ (closing ++ rest)) = some (fields, rest) := by
  induction hfields with
  | nil =>
    intro fuel hfuel
    obtain ⟨fuel, rfl⟩ : ∃ fuel', fuel = fuel' + 1 := ⟨fuel - 1, by omega⟩
    exact hclose.read fuel
  | @cons field fields front inner hfield _ ih =>
    intro fuel hfuel
    obtain ⟨fuel, rfl⟩ : ∃ fuel', fuel = fuel' + 1 := ⟨fuel - 1, by omega⟩
    have hpos : 0 < front.length := by
      cases hfield with
      | mk hkey _ =>
        have := hkey.length_pos
        simp only [List.length_append]
        omega
    have hrest : (inner ++ (closing ++ rest)).length < fuel := by
      simp only [List.length_append] at hfuel ⊢
      omega
    rw [List.append_assoc]
    exact hfield.read h (ih hrest)

theorem sequence_of_read (h : Reads readBody? B) : ∀ {fuel : Nat} {bytes : Bytes}
    {fields : List Field} {rest : Bytes},
      readFields? readBody? stop fuel bytes = some (fields, rest) →
    ∃ inner closing, bytes = inner ++ (closing ++ rest) ∧ Sequence (Keyed B) fields inner ∧
      Closes stop closing rest
  | 0, _, _, _, hread => by simp [readFields?] at hread
  | fuel + 1, bytes, fields, rest, hread => by
    rw [readFields?] at hread
    split at hread
    · next hempty =>
      rw [List.isEmpty_iff] at hempty
      subst hempty
      cases stop with
      | none =>
        cases hread
        exact ⟨[], [], rfl, .nil, rfl, rfl⟩
      | some number => simp at hread
    · split at hread
      · cases hread
      · next number tail hkey =>
        split at hread
        · next hstop =>
          subst hstop
          cases hread
          obtain ⟨closing, rfl, hclosing⟩ := readKey?_eq_some.1 hkey
          exact ⟨[], closing, rfl, .nil, hclosing⟩
        · cases hread
      · next number kind tail _ hkey =>
        split at hread
        · cases hread
        · next payload tail' hbody =>
          split at hread
          · cases hread
          · next fields' rest' hfields =>
            cases hread
            obtain ⟨front, rfl, hfront⟩ := readKey?_eq_some.1 hkey
            obtain ⟨body, rfl, hB⟩ := h.sound hbody
            obtain ⟨inner, closing, rfl, hseq, hclose⟩ := sequence_of_read h hfields
            exact ⟨front ++ body ++ inner, closing, by simp, .cons (.mk hfront hB) hseq, hclose⟩

end

/-- What is read is a body, if what is read in groups is. -/
theorem body_of_readPayload? {depth : Nat} (h : Reads (readPayload? depth) (IsBody depth))
    {number : Nat} {kind : Kind} {bytes rest : Bytes} {payload : Payload}
    (h' : readPayload? (depth + 1) number kind bytes = some (payload, rest)) :
    ∃ body, bytes = body ++ rest ∧ IsBody (depth + 1) number kind payload body := by
  cases kind with
  | varint =>
    obtain ⟨⟨n, tail⟩, hread, heq⟩ := Option.map_eq_some_iff.1 h'
    cases heq
    obtain ⟨front, rfl, hvarint⟩ := readVarint?_eq_some.1 hread
    exact ⟨front, rfl, .varint hvarint⟩
  | fixed64 =>
    obtain ⟨⟨value, tail⟩, hread, heq⟩ := Option.map_eq_some_iff.1 h'
    cases heq
    obtain ⟨rfl, hlength⟩ := take?_eq_some.1 hread
    exact ⟨value, rfl, .fixed64 hlength⟩
  | fixed32 =>
    obtain ⟨⟨value, tail⟩, hread, heq⟩ := Option.map_eq_some_iff.1 h'
    cases heq
    obtain ⟨rfl, hlength⟩ := take?_eq_some.1 hread
    exact ⟨value, rfl, .fixed32 hlength⟩
  | delimited =>
    simp only [readPayload?] at h'
    split at h'
    · cases h'
    · next count tail hcount =>
      obtain ⟨⟨value, tail'⟩, hread, heq⟩ := Option.map_eq_some_iff.1 h'
      cases heq
      obtain ⟨front, rfl, hvarint⟩ := readVarint?_eq_some.1 hcount
      obtain ⟨rfl, rfl⟩ := take?_eq_some.1 hread
      exact ⟨front ++ value, (List.append_assoc ..).symm, .delimited hvarint⟩
  | startGroup =>
    obtain ⟨⟨fields, tail⟩, hread, heq⟩ := Option.map_eq_some_iff.1 h'
    cases heq
    obtain ⟨inner, closing, rfl, hseq, hclose⟩ := sequence_of_read h hread
    exact ⟨inner ++ closing, (List.append_assoc ..).symm, .group hseq hclose⟩
  | endGroup => cases h'

/-- Each body is read as far as it reaches, if those in groups are. -/
theorem readPayload?_of_body {depth : Nat} (h : Reads (readPayload? depth) (IsBody depth))
    {number : Nat} {kind : Kind} {payload : Payload} {body : Bytes}
    (hbody : IsBody (depth + 1) number kind payload body) (rest : Bytes) :
    readPayload? (depth + 1) number kind (body ++ rest) = some (payload, rest) := by
  cases hbody with
  | varint hvarint =>
    simp only [readPayload?, readVarint?_eq_some.2 ⟨_, rfl, hvarint⟩, Option.map_some]
  | fixed64 hlength | fixed32 hlength =>
    simp only [readPayload?, take?_eq_some.2 ⟨rfl, hlength⟩, Option.map_some]
  | delimited hvarint =>
    simp only [readPayload?, List.append_assoc, readVarint?_eq_some.2 ⟨_, rfl, hvarint⟩,
      take?_eq_some.2 ⟨rfl, rfl⟩, Option.map_some]
  | @group fields inner stop hseq hstop =>
    have hclose : Closes (some number) stop rest := hstop
    simp only [readPayload?, List.append_assoc, hseq.read h hclose (Nat.lt_succ_self _),
      Option.map_some]

/-- By induction on how deep groups nest. -/
theorem readPayload?_reads : ∀ depth, Reads (readPayload? depth) (IsBody depth)
  | 0 =>
    { sound := fun h => by simp [readPayload?] at h
      complete := fun h => h.elim
      ends := fun h => h.elim }
  | depth + 1 =>
    { sound := body_of_readPayload? (readPayload?_reads depth)
      complete := readPayload?_of_body (readPayload?_reads depth)
      ends := fun h => by cases h }

/-- **The reader takes what the grammar allows**, and nothing else. -/
theorem read?_eq_some_iff {bytes : Bytes} {fields : List Field} :
    read? bytes = some fields ↔ Spells fields bytes := by
  have hreads := readPayload?_reads depthLimit
  unfold read?
  constructor
  · intro h
    obtain ⟨⟨fields', rest⟩, hread, rfl⟩ := Option.map_eq_some_iff.1 h
    obtain ⟨inner, closing, rfl, hseq, rfl, rfl⟩ := sequence_of_read hreads hread
    rwa [List.append_nil, List.append_nil]
  · intro h
    have hclose : Closes none [] [] := ⟨rfl, rfl⟩
    have hread := Sequence.read hreads h hclose (Nat.lt_succ_self _)
    simp only [List.append_nil] at hread
    rw [hread, Option.map_some]

/-! ## Writing -/

theorem groups_low {n : Nat} (h : n < 128) : Groups [UInt8.ofNat n] n := by
  have hbyte : (UInt8.ofNat n).toNat = n := UInt8.toNat_ofNat_of_lt' (by rw [UInt8.size]; omega)
  have hlast : Groups [UInt8.ofNat n] (UInt8.ofNat n).toNat := .last (by omega)
  rwa [hbyte] at hlast

theorem groups_high {n : Nat} {bytes : Bytes} (h : Groups bytes (n / 128)) :
    Groups (UInt8.ofNat (n % 128 + 128) :: bytes) n := by
  have hbyte : (UInt8.ofNat (n % 128 + 128)).toNat = n % 128 + 128 :=
    UInt8.toNat_ofNat_of_lt' (by rw [UInt8.size]; omega)
  have hmore := Groups.more (b := UInt8.ofNat (n % 128 + 128)) (by omega) h
  have hn : (UInt8.ofNat (n % 128 + 128)).toNat - 128 + 128 * (n / 128) = n := by omega
  rwa [hn] at hmore

theorem varintGroups_spelled : ∀ (more : Nat) {n : Nat}, n < Nat.pow 128 (more + 1) →
    Groups (varintGroups (more + 1) n) n ∧ (varintGroups (more + 1) n).length ≤ more + 1 := by
  intro more
  induction more with
  | zero =>
    intro n h
    have hlow : n < 128 := h
    rw [varintGroups, if_pos hlow]
    exact ⟨groups_low hlow, Nat.le_refl _⟩
  | succ more ih =>
    intro n h
    have hpow : Nat.pow 128 (more + 1 + 1) = Nat.pow 128 (more + 1) * 128 := rfl
    rw [varintGroups]
    by_cases hlow : n < 128
    · rw [if_pos hlow]
      exact ⟨groups_low hlow, by simp⟩
    · obtain ⟨hgroups, hlength⟩ := ih (n := n / 128) (by omega)
      rw [if_neg hlow]
      exact ⟨groups_high hgroups, by simpa using hlength⟩

theorem varint_spelled {n : Nat} (h : n < UInt64.size) : Varint (varint n) n := by
  have hsize : UInt64.size < Nat.pow 128 10 := by decide
  obtain ⟨hgroups, hlength⟩ := varintGroups_spelled 9 (Nat.lt_trans h hsize)
  exact ⟨hgroups, hlength, h⟩

/-- The numbers of fields. -/
def IsNumber (number : Nat) : Prop := 1 ≤ number ∧ number < 0x20000000

theorem key_spelled {number : Nat} (h : IsNumber number) (kind : Kind) :
    Key (key number kind) number kind := by
  obtain ⟨hnumbered, hfits⟩ := h
  have hkind := kind.number_lt
  have h32 : UInt32.size = 8 * 0x20000000 := rfl
  have h64 : UInt32.size < UInt64.size := by decide
  have hkey : number * 8 + kind.number < UInt32.size := by omega
  exact ⟨varint_spelled (Nat.lt_trans hkey h64), hnumbered, hkey⟩

/-- What has a place in a field, where groups nest less deep than `depth`. -/
def Payload.Fits : (depth : Nat) → Payload → Prop
  | 0, _ => False
  | _ + 1, .varint n => n < UInt64.size
  | _ + 1, .fixed64 bytes => bytes.length = 8
  | _ + 1, .fixed32 bytes => bytes.length = 4
  | _ + 1, .delimited bytes => bytes.length < UInt64.size
  | depth + 1, .group fields => ∀ field ∈ fields, IsNumber field.1 ∧ Fits depth field.2

/-- What is written spells what it was written from. -/
theorem write_spelled : ∀ (depth : Nat) {fields : List Field},
    (∀ field ∈ fields, IsNumber field.1 ∧ field.2.Fits depth) →
      Sequence (Keyed (IsBody depth)) fields (write fields)
  | _, [], _ => by
    rw [write]
    exact .nil
  | 0, field :: _, h => (h field List.mem_cons_self).2.elim
  | depth + 1, (number, payload) :: fields, h => by
    obtain ⟨hnumber, hfits⟩ := h _ List.mem_cons_self
    have hrest := write_spelled (depth + 1) fun field hmem => h field (List.mem_cons_of_mem _ hmem)
    rw [write]
    refine .cons ?_ hrest
    cases payload with
    | varint n =>
      rw [writeField]
      exact .mk (key_spelled hnumber _) (.varint (varint_spelled hfits))
    | fixed64 bytes =>
      rw [writeField]
      exact .mk (key_spelled hnumber _) (.fixed64 hfits)
    | fixed32 bytes =>
      rw [writeField]
      exact .mk (key_spelled hnumber _) (.fixed32 hfits)
    | delimited bytes =>
      rw [writeField, List.append_assoc]
      exact .mk (key_spelled hnumber _) (.delimited (varint_spelled hfits))
    | group nested =>
      rw [writeField, List.append_assoc]
      exact .mk (key_spelled hnumber _)
        (.group (write_spelled depth hfits) (key_spelled hnumber _))

end ControlPlane.Wire
