/-
Messages as the wire carries them. The slots of a message are filled each by the
fields of its own number (`foldlM_add?_cons`), so fields of other numbers may
stand anywhere between them. A message is read back from any bytes that spell
it, `encode` among them (`decode?_of_spells`, `encode_spells`); and bytes can be
read just if they spell fields that their slots take (`exists_decode?_iff`).
-/
import ControlPlane.Legacy.Message
import ControlPlane.Proofs.Utf8
import ControlPlane.Proofs.Wire

namespace ControlPlane.Legacy

open Wire (Field Payload)

/-! ## One slot -/

namespace Datum

/-- The datum of its kind that nothing has been added to. -/
def blank : Datum → Datum
  | names _ => names []
  | optional _ => optional none
  | text _ => text ""
  | int _ => int 0

/-- The payloads that a slot of the datum's kind takes: texts, or numbers. -/
def Takes : Datum → Payload → Prop
  | names _, payload | optional _, payload | text _, payload =>
    ∃ s, payload = .delimited (Utf8.encode s)
  | int _, payload => ∃ n, payload = .varint n

/-- Numbers have 64 bits. -/
def InRange : Datum → Prop
  | int n => -0x8000000000000000 ≤ n ∧ n < 0x8000000000000000
  | _ => True

/-- The texts in a datum. -/
def texts : Datum → List String
  | names values => values
  | optional value => value.toList
  | text value => [value]
  | int _ => []

theorem signed_unsigned {n : Int} (h : (int n).InRange) : signed (unsigned n) = n := by
  obtain ⟨hlow, hhigh⟩ := h
  have hsize : (UInt64.size : Int) = 0x10000000000000000 := rfl
  simp only [signed, unsigned, hsize]
  by_cases hn : 0 ≤ n
  · have hmod : n % 0x10000000000000000 = n := Int.emod_eq_of_lt hn (by omega)
    rw [hmod, if_pos (by omega), Int.toNat_of_nonneg hn]
  · have hmod : n % 0x10000000000000000 = n + 0x10000000000000000 := by omega
    rw [hmod, if_neg (by omega), Int.toNat_of_nonneg (by omega)]
    omega

theorem add?_isSome {datum : Datum} {payload : Payload} :
    (datum.add? payload).isSome = true ↔ datum.Takes payload := by
  have htext (bytes : Bytes) :
      (Utf8.decode bytes).isSome = true ↔ ∃ s, bytes = Utf8.encode s := by
    simp only [Option.isSome_iff_exists, Utf8.decode_eq_some_iff, @eq_comm _ bytes]
  cases datum <;> cases payload <;> simp [add?, Takes, htext]

theorem Takes.of_add? {datum datum' : Datum} {payload payload' : Payload}
    (h : datum.add? payload = some datum') : datum'.Takes payload' ↔ datum.Takes payload' := by
  cases datum with
  | names | optional | text =>
    cases payload with
    | delimited bytes =>
      obtain ⟨s, -, rfl⟩ := Option.map_eq_some_iff.1 h
      rfl
    | _ => cases h
  | int =>
    cases payload with
    | varint n =>
      cases h
      rfl
    | _ => cases h

/-- Payloads can be added one after the other just if each of them is taken. -/
theorem exists_foldlM_add?_iff {payloads : List Payload} {datum : Datum} :
    (∃ datum', payloads.foldlM add? datum = some datum') ↔
      ∀ payload ∈ payloads, datum.Takes payload := by
  induction payloads generalizing datum with
  | nil => simp
  | cons payload payloads ih =>
    rw [List.foldlM_cons, List.forall_mem_cons, ← add?_isSome]
    cases hadd : datum.add? payload with
    | none => simp
    | some datum' =>
      have htakes (payload : Payload) : datum'.Takes payload ↔ datum.Takes payload :=
        Takes.of_add? hadd
      simp [ih, htakes]

theorem foldlM_names (values values' : List String) :
    (values'.map fun s => Payload.delimited (Utf8.encode s)).foldlM add? (names values) =
      some (names (values ++ values')) := by
  induction values' generalizing values with
  | nil => simp
  | cons s values' ih =>
    have hadd : add? (names values) (.delimited (Utf8.encode s)) =
        some (names (values ++ [s])) := by
      simp only [add?, Utf8.decode_encode, Option.map_some]
    rw [List.map_cons, List.foldlM_cons, hadd, Option.bind_eq_bind, Option.bind_some, ih]
    simp

/-- A datum is what its own fields make of one that is blank. -/
theorem foldlM_fields {datum : Datum} (h : datum.InRange) (number : Nat) :
    ((datum.fields number).map (·.2)).foldlM add? datum.blank = some datum := by
  cases datum with
  | names values =>
    have hpayloads : ((names values).fields number).map (·.2) =
        values.map fun s => Payload.delimited (Utf8.encode s) := by
      simp [fields]
    rw [hpayloads]
    exact foldlM_names [] values
  | optional value =>
    cases value with
    | none => rfl
    | some s => simp [fields, blank, add?, Utf8.decode_encode]
  | text s =>
    by_cases hs : s = ""
    · subst hs
      rfl
    · simp [fields, hs, blank, add?, Utf8.decode_encode]
  | int n =>
    by_cases hn : n = 0
    · subst hn
      rfl
    · simp [fields, hn, blank, add?, signed_unsigned h]

theorem fields_number {datum : Datum} {number : Nat} {field : Field}
    (h : field ∈ datum.fields number) : field.1 = number := by
  cases datum with
  | names values =>
    obtain ⟨s, -, rfl⟩ := List.mem_map.1 h
    rfl
  | optional value =>
    cases value with
    | none => cases h
    | some s => rw [List.mem_singleton.1 h]
  | text s =>
    simp only [fields] at h
    split at h
    · cases h
    · rw [List.mem_singleton.1 h]
  | int n =>
    simp only [fields] at h
    split at h
    · cases h
    · rw [List.mem_singleton.1 h]

/-- A datum whose texts can be told the length of has a place on the wire. -/
theorem fields_fit {datum : Datum}
    (h : ∀ s ∈ datum.texts, (Utf8.encode s).length < UInt64.size) {number : Nat} {field : Field}
    (hfield : field ∈ datum.fields number) (depth : Nat) : field.2.Fits (depth + 1) := by
  cases datum with
  | names values =>
    obtain ⟨s, hs, rfl⟩ := List.mem_map.1 hfield
    exact h s hs
  | optional value =>
    cases value with
    | none => cases hfield
    | some s =>
      rw [List.mem_singleton.1 hfield]
      exact h s (by simp [texts])
  | text s =>
    simp only [fields] at hfield
    split at hfield
    · cases hfield
    · rw [List.mem_singleton.1 hfield]
      exact h s (by simp [texts])
  | int n =>
    simp only [fields] at hfield
    split at hfield
    · cases hfield
    · rw [List.mem_singleton.1 hfield]
      have hpos : (0 : Int) < UInt64.size := by decide
      have hnonneg := Int.emod_nonneg n (Int.ne_of_gt hpos)
      have hlt := Int.emod_lt_of_pos n hpos
      change (n % UInt64.size).toNat < UInt64.size
      omega

end Datum

/-! ## All slots -/

namespace Message

/-- The payloads of the fields with this number, in order. -/
def payloads (number : Nat) (fields : List Field) : List Payload :=
  (fields.filter (·.1 = number)).map (·.2)

/-- The empty message of its type. -/
def blank (m : Message) : Message := m.map fun slot => { slot with datum := slot.datum.blank }

def numbers (m : Message) : List Nat := m.map Slot.number

/-- The first slot takes the fields of its number, and the others take the rest. -/
theorem foldlM_add?_cons (slot : Slot) (m : Message) (fields : List Field) :
    fields.foldlM add? (slot :: m) =
      ((payloads slot.number fields).foldlM Datum.add? slot.datum).bind fun datum =>
        ((fields.filter (·.1 ≠ slot.number)).foldlM add? m).map ({ slot with datum } :: ·) := by
  induction fields generalizing slot m with
  | nil => rfl
  | cons field fields ih =>
    obtain ⟨number, payload⟩ := field
    rw [List.foldlM_cons, add?]
    by_cases hnumber : slot.number = number
    · subst hnumber
      cases hadd : slot.datum.add? payload with
      | none => simp [payloads, hadd]
      | some datum => simp [payloads, hadd, ih]
    · have hother : number ≠ slot.number := Ne.symm hnumber
      have hpayloads : payloads slot.number ((number, payload) :: fields) =
          payloads slot.number fields := by
        simp [payloads, hother]
      cases hadd : add? m (number, payload) with
      | none => simp [hpayloads, hnumber, hother, hadd]
      | some m' => simp [hpayloads, hnumber, hother, hadd, ih]

theorem payloads_filter_ne {number number' : Nat} (h : number ≠ number') (fields : List Field) :
    payloads number (fields.filter (·.1 ≠ number')) = payloads number fields := by
  rw [payloads, payloads, List.filter_filter]
  congr 1
  refine List.filter_congr fun field _ => ?_
  by_cases hfield : field.1 = number
  · simp [hfield, h]
  · simp [hfield]

/-- Fields that no slot has the number of are passed over. -/
theorem foldlM_add?_nil (fields : List Field) : fields.foldlM add? [] = some [] := by
  induction fields with
  | nil => rfl
  | cons field fields ih => exact ih

/-- A message is what the fields of each of its slots make of an empty one. -/
theorem foldlM_add?_blank : ∀ {m : Message} {fields : List Field}, m.numbers.Nodup →
    (∀ slot ∈ m, slot.datum.InRange) →
    (∀ slot ∈ m, payloads slot.number fields = (slot.datum.fields slot.number).map (·.2)) →
    fields.foldlM add? m.blank = some m
  | [], fields, _, _, _ => foldlM_add?_nil fields
  | slot :: m, fields, hnumbers, hrange, hfields => by
    obtain ⟨hnumber, hnumbers⟩ := List.nodup_cons.1 hnumbers
    have hslot : (payloads slot.number fields).foldlM Datum.add? slot.datum.blank =
        some slot.datum := by
      rw [hfields slot List.mem_cons_self]
      exact Datum.foldlM_fields (hrange slot List.mem_cons_self) _
    have hrest : (fields.filter (·.1 ≠ slot.number)).foldlM add? (blank m) = some m := by
      refine foldlM_add?_blank hnumbers (fun slot' h => hrange slot' (List.mem_cons_of_mem _ h))
        fun slot' h => ?_
      have hother : slot'.number ≠ slot.number :=
        fun heq => hnumber (heq ▸ List.mem_map_of_mem h)
      rw [payloads_filter_ne hother, hfields slot' (List.mem_cons_of_mem _ h)]
    have hcons := foldlM_add?_cons { slot with datum := slot.datum.blank } (blank m) fields
    rw [hslot, Option.bind_some, hrest, Option.map_some] at hcons
    exact hcons

/-- The bytes spell the message: for each slot the fields that it has are its
datum's, and there may be fields without a slot anywhere between them. -/
def Spells (m : Message) (bytes : Bytes) : Prop :=
  ∃ fields, Wire.Spells fields bytes ∧
    ∀ slot ∈ m, fields.filter (·.1 = slot.number) = slot.datum.fields slot.number

/-- **A message is read back** from whatever bytes spell it. -/
theorem decode?_of_spells {m : Message} {bytes : Bytes} (hnumbers : m.numbers.Nodup)
    (hrange : ∀ slot ∈ m, slot.datum.InRange) (h : m.Spells bytes) :
    decode? m.blank bytes = some m := by
  obtain ⟨fields, hspells, hfields⟩ := h
  have hread : Wire.read? bytes = some fields := Wire.read?_eq_some_iff.2 hspells
  simp only [decode?, hread]
  exact foldlM_add?_blank hnumbers hrange fun slot hslot =>
    congrArg (List.map _) (hfields slot hslot)

/-- The fields of a slot, among those of all. -/
theorem filter_flatMap_fields : ∀ {m : Message}, m.numbers.Nodup → ∀ slot ∈ m,
    (m.flatMap fun slot => slot.datum.fields slot.number).filter (·.1 = slot.number) =
      slot.datum.fields slot.number
  | slot :: m, hnumbers, slot', hmem => by
    obtain ⟨hnumber, hnumbers⟩ := List.nodup_cons.1 hnumbers
    have hall (slot : Slot) :
        (slot.datum.fields slot.number).filter (·.1 = slot.number) =
          slot.datum.fields slot.number :=
      List.filter_eq_self.2 fun field hfield => by simp [Datum.fields_number hfield]
    have hnone {slot slot' : Slot} (hne : slot.number ≠ slot'.number) :
        (slot.datum.fields slot.number).filter (·.1 = slot'.number) = [] :=
      List.filter_eq_nil_iff.2 fun field hfield => by simp [Datum.fields_number hfield, hne]
    rw [List.flatMap_cons, List.filter_append]
    rcases List.mem_cons.1 hmem with rfl | hmem
    · have hrest : (m.flatMap fun slot => slot.datum.fields slot.number).filter
          (·.1 = slot'.number) = [] := by
        rw [List.filter_flatMap, List.flatMap_eq_nil_iff]
        intro slot hslot
        exact hnone fun heq => hnumber (heq ▸ List.mem_map_of_mem hslot)
      rw [hall, hrest, List.append_nil]
    · have hne : slot.number ≠ slot'.number :=
        fun heq => hnumber (heq ▸ List.mem_map_of_mem hmem)
      rw [hnone hne, List.nil_append]
      exact filter_flatMap_fields hnumbers slot' hmem

/-- The message can be sent: its slots are numbered as fields are, each by a
number of its own, and its data have a place on the wire. -/
structure Sendable (m : Message) : Prop where
  numbered : ∀ slot ∈ m, Wire.IsNumber slot.number
  nodup : m.numbers.Nodup
  inRange : ∀ slot ∈ m, slot.datum.InRange
  texts : ∀ slot ∈ m, ∀ s ∈ slot.datum.texts, (Utf8.encode s).length < UInt64.size

/-- Fields that can be written spell the message whose slots have their data in
them, whatever other fields are between. -/
theorem write_spells {m : Message} {fields : List Field}
    (hslots : ∀ slot ∈ m, fields.filter (·.1 = slot.number) = slot.datum.fields slot.number)
    (hfit : ∀ field ∈ fields, Wire.IsNumber field.1 ∧ field.2.Fits Wire.depthLimit) :
    m.Spells (Wire.write fields) :=
  ⟨fields, Wire.write_spelled _ hfit, hslots⟩

theorem encode_spells {m : Message} (h : m.Sendable) : m.Spells m.encode := by
  refine write_spells (filter_flatMap_fields h.nodup) fun field hfield => ?_
  obtain ⟨slot, hslot, hfield⟩ := List.mem_flatMap.1 hfield
  rw [Datum.fields_number hfield]
  exact ⟨h.numbered slot hslot, Datum.fields_fit (h.texts slot hslot) hfield 99⟩

/-- What is sent is read back. -/
theorem decode?_encode {m : Message} (h : m.Sendable) : decode? m.blank m.encode = some m :=
  decode?_of_spells h.nodup h.inRange (encode_spells h)

/-- The bytes are a message of this type: they spell fields, and every slot takes
those of its number. -/
def IsEncoding (m : Message) (bytes : Bytes) : Prop :=
  ∃ fields, Wire.Spells fields bytes ∧
    ∀ slot ∈ m, ∀ field ∈ fields, field.1 = slot.number → slot.datum.Takes field.2

theorem exists_foldlM_add?_iff : ∀ {m : Message} {fields : List Field}, m.numbers.Nodup →
    ((∃ m', fields.foldlM add? m = some m') ↔
      ∀ slot ∈ m, ∀ field ∈ fields, field.1 = slot.number → slot.datum.Takes field.2)
  | [], fields, _ => by simp [foldlM_add?_nil]
  | slot :: m, fields, hnumbers => by
    obtain ⟨hnumber, hnumbers⟩ := List.nodup_cons.1 hnumbers
    have hslot :
        (∃ datum, (payloads slot.number fields).foldlM Datum.add? slot.datum = some datum) ↔
          ∀ field ∈ fields, field.1 = slot.number → slot.datum.Takes field.2 := by
      rw [Datum.exists_foldlM_add?_iff, payloads, List.forall_mem_map]
      refine forall_congr' fun field => ?_
      rw [List.mem_filter, decide_eq_true_iff, and_imp]
    have hrest : (∃ m', (fields.filter (·.1 ≠ slot.number)).foldlM add? m = some m') ↔
        ∀ slot' ∈ m, ∀ field ∈ fields, field.1 = slot'.number → slot'.datum.Takes field.2 := by
      rw [exists_foldlM_add?_iff hnumbers]
      refine forall₂_congr fun slot' hslot' => forall_congr' fun field => ?_
      have hne : slot'.number ≠ slot.number := fun heq => hnumber (heq ▸ List.mem_map_of_mem hslot')
      rw [List.mem_filter, decide_eq_true_iff]
      constructor
      · intro h hfield heq
        exact h ⟨hfield, fun heq' => hne (heq.symm.trans heq')⟩ heq
      · rintro h ⟨hfield, -⟩ heq
        exact h hfield heq
    rw [List.forall_mem_cons, ← hslot, ← hrest, foldlM_add?_cons]
    constructor
    · rintro ⟨m', h⟩
      obtain ⟨datum, hdatum, h⟩ := Option.bind_eq_some_iff.1 h
      obtain ⟨m'', hm'', -⟩ := Option.map_eq_some_iff.1 h
      exact ⟨⟨datum, hdatum⟩, m'', hm''⟩
    · rintro ⟨⟨datum, hdatum⟩, m', hm'⟩
      exact ⟨{ slot with datum } :: m', by rw [hdatum, Option.bind_some, hm', Option.map_some]⟩

/-- **Only encodings are read.** -/
theorem exists_decode?_iff {m : Message} {bytes : Bytes} (hnumbers : m.numbers.Nodup) :
    (∃ m', decode? m bytes = some m') ↔ m.IsEncoding bytes := by
  constructor
  · rintro ⟨m', h⟩
    cases hread : Wire.read? bytes with
    | none => simp [decode?, hread] at h
    | some fields =>
      simp only [decode?, hread] at h
      exact ⟨fields, Wire.read?_eq_some_iff.1 hread, (exists_foldlM_add?_iff hnumbers).1 ⟨m', h⟩⟩
  · rintro ⟨fields, hspells, htakes⟩
    have hread : Wire.read? bytes = some fields := Wire.read?_eq_some_iff.2 hspells
    simp only [decode?, hread]
    exact (exists_foldlM_add?_iff hnumbers).2 htakes

end Message
end ControlPlane.Legacy
