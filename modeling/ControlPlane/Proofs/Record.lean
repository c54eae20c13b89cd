/-
Objects as they are read. The members of an object are read one by one, so an
object can be used as a map just if each of its keys is text and each of its
values is of the type (`entries?_eq_some_iff`). A record takes its known fields
from among them: where they stand does not matter, and neither do other members
(`record?_of_perm`, `record?_unknown`).
-/
import Mathlib.Data.List.Forall2
import Mathlib.Data.List.Nodup
import Mathlib.Data.List.Perm.Basic
import ControlPlane.Json.Decoder
import ControlPlane.Proofs.Utf8

namespace ControlPlane

theorem mapM_eq_some_iff {α β : Type} {f : α → Option β} {as : List α} {bs : List β} :
    as.mapM f = some bs ↔ List.Forall₂ (fun a b => f a = some b) as bs := by
  induction as generalizing bs with
  | nil => simp [eq_comm]
  | cons a as ih =>
    rw [List.mapM_cons, List.forall₂_cons_left_iff]
    simp only [Option.bind_eq_bind, Option.bind_eq_some_iff, ih, Option.pure_def,
      Option.some.injEq]
    constructor
    · rintro ⟨b, hb, bs, hbs, rfl⟩
      exact ⟨b, bs, hb, hbs, rfl⟩
    · rintro ⟨b, bs, hb, hbs, rfl⟩
      exact ⟨b, hb, bs, hbs, rfl⟩

namespace Json

variable {α : Type}

/-- The member is an entry of this name, whose value is read in this way. -/
def Holds (value? : Json → Option α) (member : RawText × Json) (entry : String × α) : Prop :=
  member.1.decode? = some entry.1 ∧ value? member.2 = some entry.2

theorem members?_eq_some_iff {members : List (RawText × Json)} {named : List (String × Json)} :
    members? members = some named ↔ List.Forall₂ (Holds some) members named := by
  rw [members?, mapM_eq_some_iff]
  refine iff_of_eq (congrArg (List.Forall₂ · members named) ?_)
  funext ⟨key, value⟩ ⟨name, j⟩
  simp [Holds]

theorem entries?_eq_some_iff {value? : Json → Option α} {j : Json} {entries : List (String × α)} :
    j.entries? value? = some entries ↔
      ∃ members, j = .object members ∧ List.Forall₂ (Holds value?) members entries := by
  cases j with
  | object members =>
    simp only [entries?, Option.bind_eq_some_iff, members?_eq_some_iff, mapM_eq_some_iff,
      object.injEq, exists_eq_left']
    -- Keys are read first and values after them, which comes to one reading of both.
    induction members generalizing entries with
    | nil => simp
    | cons member members ih =>
      obtain ⟨key, value⟩ := member
      simp only [List.forall₂_cons_left_iff, Prod.exists, Holds, Option.some.injEq, ← ih]
      constructor
      · rintro ⟨_, ⟨name, j, named, ⟨hkey, rfl⟩, hnamed, rfl⟩, h⟩
        obtain ⟨_, rest, hentry, hrest, rfl⟩ := List.forall₂_cons_left_iff.1 h
        obtain ⟨a, ha, rfl⟩ := Option.map_eq_some_iff.1 hentry
        exact ⟨name, a, rest, ⟨hkey, ha⟩, ⟨named, hnamed, hrest⟩, rfl⟩
      · rintro ⟨name, a, rest, ⟨hkey, ha⟩, ⟨named, hnamed, hrest⟩, rfl⟩
        exact ⟨(name, value) :: named, ⟨name, value, named, ⟨hkey, rfl⟩, hnamed, rfl⟩,
          .cons (Option.map_eq_some_iff.2 ⟨a, ha, rfl⟩) hrest⟩
  | _ => simp [entries?]

/-! ## Keys -/

theorem RawText.bytes?_map_byte (bytes : Bytes) :
    RawText.bytes? (bytes.map .byte) = some bytes := by
  induction bytes with
  | nil => rfl
  | cons b bytes ih => rw [List.map_cons, RawText.bytes?, ih, Option.map_some]

/-- A text is read back from a string that holds its bytes. -/
theorem RawText.decode?_ofString (s : String) : (RawText.ofString s).decode? = some s := by
  rw [RawText.decode?, RawText.ofString, RawText.bytes?_map_byte, Option.bind_some,
    Utf8.decode_encode]

/-! ## Records -/

variable {names : List String} {name : String} {members : List (RawText × Json)}

theorem members?_append (before after : List (RawText × Json)) : members? (before ++ after) =
    (members? before).bind fun named => (members? after).map (named ++ ·) := by
  simp only [members?, List.mapM_append, Option.bind_eq_bind, Option.pure_def,
    Option.map_eq_bind]
  rfl

/-- A member that is no field of a record is passed over. -/
theorem record?_unknown {member : RawText × Json} (hkey : member.1.decode? = some name)
    (hname : name ∉ names) (before after : List (RawText × Json)) :
    record? names (object (before ++ member :: after)) =
      record? names (object (before ++ after)) := by
  have hmember : members? (member :: after) =
      (members? after).map ((name, member.2) :: ·) := by
    rw [← List.singleton_append, members?_append]
    simp [members?, hkey]
  simp only [record?, members?_append, hmember]
  cases members? before <;> cases members? after <;> simp [hname]

/-- The fields of a record are found by their names. -/
theorem Record.field?_eq_some_iff {r : Record} (h : (r.fields.map (·.1)).Nodup) {j : Json} :
    r.field? name = some j ↔ (name, j) ∈ r.fields := by
  rw [Record.field?, Option.map_eq_some_iff]
  constructor
  · rintro ⟨field, hfield, rfl⟩
    have hname : field.1 = name := by simpa using List.find?_some hfield
    exact hname ▸ List.mem_of_find?_eq_some hfield
  · intro hmem
    cases hfind : r.fields.find? (·.1 = name) with
    | none => simpa using List.find?_eq_none.1 hfind _ hmem
    | some field =>
      have hname : field.1 = name := by simpa using List.find?_some hfind
      have heq : field = (name, j) :=
        List.inj_on_of_nodup_map h (List.mem_of_find?_eq_some hfind) hmem hname
      exact ⟨field, rfl, by rw [heq]⟩

/-- Where a name is found does not depend on the order, if no name is there twice. -/
theorem find?_of_perm {fields fields' : List (String × Json)} (hperm : fields.Perm fields')
    (h : (fields.map (·.1)).Nodup) (name : String) :
    (fields.find? (·.1 = name)).map (·.2) = (fields'.find? (·.1 = name)).map (·.2) := by
  have h' : (fields'.map (·.1)).Nodup := (hperm.map _).nodup_iff.1 h
  refine Option.ext fun j => ?_
  have hfield := @Record.field?_eq_some_iff name ⟨fields, false⟩ h j
  have hfield' := @Record.field?_eq_some_iff name ⟨fields', false⟩ h' j
  exact hfield.trans (hperm.mem_iff.trans hfield'.symm)

theorem record?_object_eq_some_iff {r : Record} :
    record? names (object members) = some r ↔ ∃ named, List.Forall₂ (Holds some) members named ∧
      ((named.filter (·.1 ∈ names)).map (·.1)).Nodup ∧
      r = ⟨named.filter (·.1 ∈ names), false⟩ := by
  simp only [record?, Option.bind_eq_bind, Option.bind_eq_some_iff, members?_eq_some_iff]
  refine exists_congr fun named => and_congr_right fun _ => ?_
  split
  · next h => simp [h, eq_comm]
  · next h => simp [h]

/-- The member has a name, which is that of no field of a record. -/
def Foreign (names : List String) (member : RawText × Json) : Prop :=
  ∃ name, member.1.decode? = some name ∧ name ∉ names

/-- Members that are no fields have names, and none of them is left. -/
theorem exists_passed {others : List (RawText × Json)}
    (h : ∀ member ∈ others, Foreign names member) :
    ∃ passed, List.Forall₂ (Holds some) others passed ∧ passed.filter (·.1 ∈ names) = [] := by
  induction others with
  | nil => exact ⟨[], .nil, rfl⟩
  | cons member others ih =>
    obtain ⟨⟨name, hkey, hname⟩, hothers⟩ := List.forall_mem_cons.1 h
    obtain ⟨passed, hpassed, hnone⟩ := ih hothers
    exact ⟨(name, member.2) :: passed, .cons ⟨hkey, rfl⟩ hpassed, by simp [hname, hnone]⟩

/-- Of known members and others, in any order, just the known ones can be fields. -/
theorem exists_named_of_perm {known others : List (RawText × Json)}
    {fields : List (String × Json)} (hperm : members.Perm (known ++ others))
    (hknown : List.Forall₂ (Holds some) known fields)
    (hothers : ∀ member ∈ others, Foreign names member) :
    ∃ named, List.Forall₂ (Holds some) members named ∧
      (named.filter (·.1 ∈ names)).Perm (fields.filter (·.1 ∈ names)) := by
  obtain ⟨passed, hpassed, hnone⟩ := exists_passed hothers
  obtain ⟨named, hnamed, hnamedPerm⟩ :=
    List.perm_comp_forall₂ hperm (List.rel_append hknown hpassed)
  exact ⟨named, hnamed, by simpa [List.filter_append, hnone] using hnamedPerm.filter (·.1 ∈ names)⟩

/-- An object whose members are known fields and others, in any order, is read
as the record of these fields. -/
theorem record?_of_perm (known : List (RawText × Json)) {others : List (RawText × Json)}
    (fields : List (String × Json)) (hperm : members.Perm (known ++ others))
    (hknown : List.Forall₂ (Holds some) known fields)
    (hfields : ∀ field ∈ fields, field.1 ∈ names) (hnodup : (fields.map (·.1)).Nodup)
    (hothers : ∀ member ∈ others, ∃ name, member.1.decode? = some name ∧ name ∉ names) :
    ∃ r, record? names (object members) = some r ∧ r.positional = false ∧
      ∀ name j, r.field? name = some j ↔ (name, j) ∈ fields := by
  obtain ⟨named, hnamed, hfilter⟩ := exists_named_of_perm hperm hknown hothers
  have hfields : fields.filter (·.1 ∈ names) = fields := by simpa using hfields
  rw [hfields] at hfilter
  have hdistinct : ((named.filter (·.1 ∈ names)).map (·.1)).Nodup :=
    (hfilter.map _).nodup_iff.2 hnodup
  refine ⟨_, record?_object_eq_some_iff.2 ⟨named, hnamed, hdistinct, rfl⟩, rfl, fun name j => ?_⟩
  rw [Record.field?_eq_some_iff hdistinct, hfilter.mem_iff]

end Json
end ControlPlane
