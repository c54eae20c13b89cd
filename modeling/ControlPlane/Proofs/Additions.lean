/-
Replies that a server has added to. A record of a reply may come with members
that the client does not know, with any value and at any place, and with those
it knows in another order. `Grown` says of two values that the second is the
first after this has happened in its records, however deep they stand; a reader
is `Tolerant` if that makes no difference to it. The readers are put together
from a few for records, lists and fields, and so is their tolerance
(`additions_ignored`).
-/
import ControlPlane.Admin.Reply
import ControlPlane.Proofs.Json
import ControlPlane.Proofs.Record

namespace ControlPlane

namespace Json

/-- Where the records of a value are, each with the fields that it is read by. -/
inductive Shape
  /-- A value that is taken as it is. -/
  | data
  | list (item : Shape)
  | record (names : List String) (field : String → Shape)

/-- The fields have one name, and the value of one has grown into the other's. -/
def FieldGrown (R : String → Json → Json → Prop) (field field' : String × Json) : Prop :=
  field'.1 = field.1 ∧ R field.1 field.2 field'.2

/-- The members have one key, and the value of one has grown into the other's. -/
def MemberGrown (R : String → Json → Json → Prop) (member member' : RawText × Json) : Prop :=
  member'.1 = member.1 ∧
    ∀ name, member.1.decode? = some name → R name member.2 member'.2

/-- A record has grown into another, where `R` tells it of its fields. To an
object members have come that are no fields, and all have changed places. -/
inductive RecordGrown (names : List String) (R : String → Json → Json → Prop) :
    Json → Json → Prop
  | same {j : Json} : RecordGrown names R j j
  | object {members grown added members' : List (RawText × Json)} :
      List.Forall₂ (MemberGrown R) members grown → (∀ member ∈ added, Foreign names member) →
      members'.Perm (grown ++ added) → RecordGrown names R (object members) (object members')
  | array {items items' : List Json} : items'.length = items.length →
      List.Forall₂ (FieldGrown R) (names.zip items) (names.zip items') →
      RecordGrown names R (array items) (array items')

inductive ListGrown (R : Json → Json → Prop) : Json → Json → Prop
  | same {j : Json} : ListGrown R j j
  | array {items items' : List Json} : List.Forall₂ R items items' →
      ListGrown R (array items) (array items')

/-- A value of the shape has grown into another in none but its records. -/
def Grown : Shape → Json → Json → Prop
  | .data, j, j' => j' = j
  | .list item, j, j' => ListGrown (Grown item) j j'
  | .record names field, j, j' => RecordGrown names (fun name => Grown (field name)) j j'

theorem Grown.same (shape : Shape) (j : Json) : Grown shape j j := by
  cases shape with
  | data => rfl
  | list => exact ListGrown.same
  | record => exact RecordGrown.same

theorem MemberGrown.same {R : String → Json → Json → Prop} (hsame : ∀ name j, R name j j)
    (member : RawText × Json) : MemberGrown R member member :=
  ⟨rfl, fun name _ => hsame name member.2⟩

/-! ## Records -/

variable {names : List String} {R : String → Json → Json → Prop}

/-- Of two records, each field of one has grown into that of the other. -/
structure Record.Grown (R : String → Json → Json → Prop) (r r' : Record) : Prop where
  positional : r'.positional = r.positional
  field : ∀ name, Option.Rel (R name) (r.field? name) (r'.field? name)

theorem find?_grown {fields fields' : List (String × Json)}
    (h : List.Forall₂ (FieldGrown R) fields fields') (name : String) :
    Option.Rel (R name) ((fields.find? (·.1 = name)).map (·.2))
      ((fields'.find? (·.1 = name)).map (·.2)) := by
  induction h with
  | nil => exact .none
  | @cons field field' fields fields' hfield _ ih =>
    obtain ⟨hname, hgrown⟩ := hfield
    by_cases h : field.1 = name
    · subst h
      simpa [hname] using Option.Rel.some hgrown
    · simpa [hname, h] using ih

theorem keys_grown {fields fields' : List (String × Json)}
    (h : List.Forall₂ (FieldGrown R) fields fields') :
    fields'.map (·.1) = fields.map (·.1) := by
  induction h with
  | nil => rfl
  | cons hfield _ ih => rw [List.map_cons, List.map_cons, hfield.1, ih]

theorem exists_named {members grown : List (RawText × Json)} {named : List (String × Json)}
    (hgrown : List.Forall₂ (MemberGrown R) members grown)
    (hnamed : List.Forall₂ (Holds some) members named) :
    ∃ named', List.Forall₂ (Holds some) grown named' ∧
      List.Forall₂ (FieldGrown R) named named' := by
  induction hgrown generalizing named with
  | nil =>
    cases hnamed
    exact ⟨[], .nil, .nil⟩
  | @cons member member' members grown hmember _ ih =>
    obtain ⟨hkey, hvalue⟩ := hmember
    cases hnamed with
    | @cons _ entry _ named hentry hnamed =>
      obtain ⟨named', hnamed', hfields⟩ := ih hnamed
      obtain ⟨hdecode, hsame⟩ := hentry
      have hsame : member.2 = entry.2 := Option.some.inj hsame
      refine ⟨(entry.1, member'.2) :: named', .cons ⟨hkey ▸ hdecode, rfl⟩ hnamed',
        .cons ⟨rfl, ?_⟩ hfields⟩
      rw [← hsame]
      exact hvalue _ hdecode

/-- What is read as a record is read as one when it has grown, with its fields
grown. -/
theorem record?_grown (hsame : ∀ name j, R name j j) {j j' : Json} (h : RecordGrown names R j j')
    {r : Record} (hread : record? names j = some r) :
    ∃ r', record? names j' = some r' ∧ r.Grown R r' := by
  cases h with
  | same =>
    refine ⟨r, hread, rfl, fun name => ?_⟩
    cases r.field? name with
    | none => exact .none
    | some j => exact .some (hsame name j)
  | @object members grown added members' hgrown hadded hperm =>
    obtain ⟨named, hnamed, hdistinct, rfl⟩ := record?_object_eq_some_iff.1 hread
    obtain ⟨named', hnamed', hfields⟩ := exists_named hgrown hnamed
    obtain ⟨all, hall, hfilter⟩ := exists_named_of_perm hperm hnamed' hadded
    -- Only fields have to be told apart, so what was added may have one name twice.
    have hknown : List.Forall₂ (FieldGrown R) (named.filter (·.1 ∈ names))
        (named'.filter (·.1 ∈ names)) :=
      List.rel_filter (fun _ _ hfield => by simp [hfield.1]) hfields
    have hdistinctKnown : ((named'.filter (·.1 ∈ names)).map (·.1)).Nodup := by
      rwa [keys_grown hknown]
    have hdistinctAll : ((all.filter (·.1 ∈ names)).map (·.1)).Nodup :=
      (hfilter.map _).nodup_iff.2 hdistinctKnown
    refine ⟨_, record?_object_eq_some_iff.2 ⟨all, hall, hdistinctAll, rfl⟩, rfl, fun name => ?_⟩
    rw [Record.field?, Record.field?, find?_of_perm hfilter hdistinctAll]
    exact find?_grown hknown name
  | @array items items' hlength hfields =>
    rw [record?] at hread
    split at hread
    · next hfit =>
      cases hread
      exact ⟨⟨names.zip items', true⟩, by rw [record?, if_pos (hlength ▸ hfit)], rfl,
        find?_grown hfields⟩
    · cases hread

/-! ## Readers -/

variable {α : Type} {shape : Shape} {name : String}

/-- A reader that takes a value that has grown for what it took it before. -/
def Tolerant (shape : Shape) (value? : Json → Option α) : Prop :=
  ∀ ⦃j j' : Json⦄, Grown shape j j' → ∀ ⦃x : α⦄, value? j = some x → value? j' = some x

theorem tolerant_data (value? : Json → Option α) : Tolerant .data value? := by
  intro j j' hgrown x hx
  rw [Grown] at hgrown
  rwa [hgrown]

theorem Tolerant.list {item? : Json → Option α} (h : Tolerant shape item?) :
    Tolerant (.list shape) (list? item?) := by
  intro j j' hgrown xs hxs
  rw [Grown] at hgrown
  cases hgrown with
  | same => exact hxs
  | array hitems =>
    rw [list?, mapM_eq_some_iff] at hxs ⊢
    induction hitems generalizing xs with
    | nil => exact hxs
    | cons hitem _ ih =>
      cases hxs with
      | cons hx hxs => exact .cons (h hitem hx) (ih hxs)

theorem Tolerant.optional {field : String → Shape} {value? : Json → Option α}
    (h : Tolerant (.record names field) value?) :
    Tolerant (.record names field) (Json.optional? value?) := by
  intro j j' hgrown x hx
  have hgrown' := hgrown
  rw [Grown] at hgrown'
  cases hgrown' with
  | same => exact hx
  | object | array =>
    obtain ⟨y, hy, rfl⟩ := Option.map_eq_some_iff.1 hx
    exact Option.map_eq_some_iff.2 ⟨y, h hgrown hy, rfl⟩

namespace Record

variable {field : String → Shape} {r r' : Record} {value? : Json → Option α}

/-- A field is in both records or in neither. -/
theorem Grown.field_cases {R : String → Json → Json → Prop} (h : r.Grown R r') (name : String) :
    (r.field? name = none ∧ r'.field? name = none) ∨
      ∃ j j', r.field? name = some j ∧ r'.field? name = some j' ∧ R name j j' := by
  have hfield := h.field name
  revert hfield
  cases r.field? name <;> cases r'.field? name <;> intro hfield <;> cases hfield
  · exact .inl ⟨rfl, rfl⟩
  · exact .inr ⟨_, _, rfl, rfl, by assumption⟩

theorem Grown.required? (h : r.Grown (fun name => Json.Grown (field name)) r')
    {x : α} (hx : r.required? name value? = some x) (hvalue : Tolerant (field name) value?) :
    r'.required? name value? = some x := by
  rw [Record.required?] at hx ⊢
  rcases h.field_cases name with ⟨hj, hj'⟩ | ⟨j, j', hj, hj', hgrown⟩
  · rw [hj] at hx
    cases hx
  · rw [hj] at hx
    rw [hj']
    exact hvalue hgrown hx

theorem Grown.defaulted? (h : r.Grown (fun name => Json.Grown (field name)) r') {default : α}
    {x : α} (hx : r.defaulted? name default value? = some x)
    (hvalue : Tolerant (field name) value?) : r'.defaulted? name default value? = some x := by
  rw [Record.defaulted?] at hx ⊢
  rcases h.field_cases name with ⟨hj, hj'⟩ | ⟨j, j', hj, hj', hgrown⟩
  · rw [hj] at hx
    rwa [hj']
  · rw [hj] at hx
    rw [hj']
    exact hvalue hgrown hx

theorem Grown.optional? (h : r.Grown (fun name => Json.Grown (field name)) r')
    {x : Option α} (hx : r.optional? name value? = some x)
    (hvalue : Tolerant (field name) (Json.optional? value?)) :
    r'.optional? name value? = some x := by
  rw [Record.optional?] at hx ⊢
  rcases h.field_cases name with ⟨hj, hj'⟩ | ⟨j, j', hj, hj', hgrown⟩
  · rw [hj] at hx
    rwa [hj', h.positional]
  · rw [hj] at hx
    rw [hj']
    exact hvalue hgrown hx

end Record

end Json

namespace Admin

open Json (Shape Tolerant Grown tolerant_data)

/-! ## Replies -/

/-- The shape of a record of which one field has records in it. -/
def shapeWith (names : List String) (nested : String) (shape : Shape) : Shape :=
  .record names fun name => if name = nested then shape else .data

def flatShape (names : List String) : Shape := .record names fun _ => .data

def splitShape : Shape := flatShape ["allocations"]

def serviceShape : Shape := shapeWith ["id", "split"] "split" splitShape

def versionShape : Shape :=
  shapeWith ["id", "manualScaling", "basicScaling"] "manualScaling" (flatShape ["instances"])

def pageShape (name : String) (item : Shape) : Shape :=
  shapeWith [name, "nextPageToken"] name (.list item)

theorem Tolerant.record {α : Type} {names : List String} {field : String → Shape}
    {read? : Json.Record → Option α}
    (h : ∀ ⦃r r' : Json.Record⦄, r.Grown (fun name => Grown (field name)) r' → ∀ ⦃x⦄,
      read? r = some x → read? r' = some x) :
    Tolerant (.record names field) fun j => (j.record? names).bind read? := by
  intro j j' hgrown x hx
  rw [Grown] at hgrown
  obtain ⟨r, hr, hx⟩ := Option.bind_eq_some_iff.1 hx
  obtain ⟨r', hr', hrecord⟩ := Json.record?_grown (fun name => Grown.same (field name)) hgrown hr
  exact Option.bind_eq_some_iff.2 ⟨r', hr', h hrecord hx⟩

theorem allocations?_tolerant : Tolerant splitShape Service.allocations? :=
  Tolerant.record fun _ _ h _ hx => h.defaulted? hx (tolerant_data _)

theorem service_tolerant : Tolerant serviceShape Service.ofJson? := by
  refine Tolerant.record fun r r' h service hservice => ?_
  simp only [Option.bind_eq_bind, Option.bind_eq_some_iff] at hservice ⊢
  obtain ⟨id, hid, split, hsplit, heq⟩ := hservice
  exact ⟨id, h.required? hid (tolerant_data _), split,
    h.defaulted? hsplit allocations?_tolerant.optional, heq⟩

theorem version_tolerant (depth : Nat) : Tolerant versionShape (VersionReply.ofJson? depth) := by
  refine Tolerant.record fun r r' h version hversion => ?_
  simp only [Option.bind_eq_bind, Option.bind_eq_some_iff] at hversion ⊢
  obtain ⟨id, hid, manual, hmanual, basic, hbasic, heq⟩ := hversion
  have hinstances : Tolerant (flatShape ["instances"]) VersionReply.instances? :=
    Tolerant.record fun _ _ h _ hx => h.defaulted? hx (tolerant_data _)
  exact ⟨id, h.required? hid (tolerant_data _), manual,
    h.optional? hmanual hinstances.optional, basic, h.optional? hbasic (tolerant_data _), heq⟩

theorem page_tolerant {α : Type} {name : String} {item? : Json → Option α} {shape : Shape}
    (hname : name ≠ "nextPageToken") (h : Tolerant shape item?) :
    Tolerant (pageShape name shape) (Page.ofJson? name item?) := by
  refine Tolerant.record fun r r' hr page hpage => ?_
  simp only [Option.bind_eq_bind, Option.bind_eq_some_iff] at hpage ⊢
  obtain ⟨items, hitems, next, hnext, heq⟩ := hpage
  have hlist : Tolerant (if name = name then .list shape else .data) (Json.list? item?) := by
    rw [if_pos rfl]
    exact h.list
  have hdata : Tolerant (if "nextPageToken" = name then .list shape else .data)
      (Json.optional? Json.string?) := by
    rw [if_neg hname.symm]
    exact tolerant_data _
  exact ⟨items, hr.defaulted? hitems hlist, next, hr.optional? hnext hdata, heq⟩

theorem hostname_tolerant : Tolerant (flatShape ["defaultHostname"]) defaultHostname? :=
  Tolerant.record fun _ _ h _ hx => h.optional? hx (tolerant_data _)

theorem error_tolerant :
    Tolerant (shapeWith ["error"] "error" (flatShape ["message"])) errorMessage? := by
  refine Tolerant.record fun r r' h message hmessage => ?_
  refine h.required? hmessage ?_
  exact Tolerant.record fun _ _ h _ hx => h.required? hx (tolerant_data _)

/-- The types of reply: the records that each is made of, and how it is read. -/
inductive ReplyType : {α : Type} → Shape → (Json → Option α) → Prop
  | application : ReplyType (flatShape ["defaultHostname"]) defaultHostname?
  | service : ReplyType serviceShape Service.ofJson?
  | services : ReplyType (pageShape "services" serviceShape) servicesPage?
  | version : ReplyType versionShape (VersionReply.ofJson? 1)
  | versions : ReplyType (pageShape "versions" versionShape) versionsPage?
  | error : ReplyType (shapeWith ["error"] "error" (flatShape ["message"])) errorMessage?

theorem ReplyType.tolerant {α : Type} {shape : Shape} {reply? : Json → Option α}
    (h : ReplyType shape reply?) : Tolerant shape reply? := by
  cases h with
  | application => exact hostname_tolerant
  | service => exact service_tolerant
  | services => exact page_tolerant (by decide) service_tolerant
  | version => exact version_tolerant 1
  | versions => exact page_tolerant (by decide) (version_tolerant 3)
  | error => exact error_tolerant

open Json (Spaced Spells)

theorem decode?_eq_some_iff {α : Type} {reply? : Json → Option α} {body : Bytes} {x : α} :
    decode? reply? body = some x ↔ ∃ j, Spaced (Spells j) body ∧ reply? j = some x := by
  simp only [decode?, Option.bind_eq_some_iff, Json.read?_eq_some_iff]

/-- **What a server adds to a reply does not change what is read.** -/
theorem additions_ignored {α : Type} {shape : Shape} {reply? : Json → Option α}
    (htype : ReplyType shape reply?) {body body' : Bytes} {j j' : Json}
    (hbody : Spaced (Spells j) body) (hgrown : Grown shape j j')
    (hbody' : Spaced (Spells j') body') {x : α} (hx : decode? reply? body = some x) :
    decode? reply? body' = some x := by
  rw [decode?, Json.read?_eq_some_iff.2 hbody, Option.bind_some] at hx
  rw [decode?, Json.read?_eq_some_iff.2 hbody', Option.bind_some]
  exact htype.tolerant hgrown hx

/-- A page with one service, and the page after additions. Among them are a numeral
that stands for no number and a string that is no text. -/
theorem additions_ignored_services :
    let services (items : List Json) : Json.RawText × Json :=
      (.ofString "services", .array items)
    let id : Json.RawText × Json := (.ofString "id", .string (.ofString "api"))
    let split : Json.RawText × Json := (.ofString "split", .object
      [(.ofString "allocations", .object [(.ofString "v1", .number (.ofNat 1))])])
    let labels : Json.RawText × Json := (.ofString "labels", .string [.unit 0xD800])
    let etag : Json.RawText × Json :=
      (.ofString "etag", .number ⟨false, [1], [], some (false, [9, 9, 9])⟩)
    let plain : Json := .object [services [.object [id, split]]]
    let grown : Json := .object [etag, services [.object [split, labels, id]]]
    ∃ page, decode? servicesPage? plain.write = some page ∧
      decode? servicesPage? grown.write = some page ∧ page.items.map (·.id) = ["api"] := by
  intro services id split labels etag plain grown
  have hnumeral : Json.Numeral.Regular ⟨false, [1], [], some (false, [9, 9, 9])⟩ :=
    ⟨by decide, by simp, by decide, by rintro _ _ ⟨⟩; decide⟩
  have hone := Json.Numeral.ofNat_regular 1
  have hplain : Json.Spaced (Json.Spells plain) plain.write := by
    refine Json.spaced_of (Json.write_spells ?_)
    simp only [plain, services, id, split, Json.Regular, Json.MembersRegular, Json.ItemsRegular,
      hone, and_true]
    decide
  have hgrown : Json.Spaced (Json.Spells grown) grown.write := by
    refine Json.spaced_of (Json.write_spells ?_)
    simp only [grown, services, id, split, labels, etag, Json.Regular, Json.MembersRegular,
      Json.ItemsRegular, hone, hnumeral, and_true]
    decide
  obtain ⟨page, hpage, hids⟩ : ∃ page, servicesPage? plain = some page ∧
      page.items.map (·.id) = ["api"] := ⟨_, rfl, rfl⟩
  have hread : decode? servicesPage? plain.write = some page :=
    decode?_eq_some_iff.2 ⟨plain, hplain, hpage⟩
  have hlabels : ∀ member ∈ [labels], Json.Foreign ["id", "split"] member :=
    List.forall_mem_singleton.2 ⟨"labels", Json.RawText.decode?_ofString _, by decide⟩
  have hetag : ∀ member ∈ [etag], Json.Foreign ["services", "nextPageToken"] member :=
    List.forall_mem_singleton.2 ⟨"etag", Json.RawText.decode?_ofString _, by decide⟩
  have hservice : Grown serviceShape (.object [id, split]) (.object [split, labels, id]) :=
    .object (.cons (.same (fun _ => .same _) id) (.cons (.same (fun _ => .same _) split) .nil))
      hlabels (@List.perm_append_comm _ [split, labels] [id])
  have hservices : Json.MemberGrown
      (fun name => Grown (if name = "services" then .list serviceShape else .data))
      (services [.object [id, split]]) (services [.object [split, labels, id]]) := by
    refine ⟨rfl, fun name hname => ?_⟩
    cases (Json.RawText.decode?_ofString "services").symm.trans hname
    exact Json.ListGrown.array (.cons hservice .nil)
  have hpages : Grown (pageShape "services" serviceShape) plain grown :=
    .object (.cons hservices .nil) hetag (@List.perm_append_comm _ [etag] _)
  exact ⟨page, hread, additions_ignored .services hplain hpages hgrown hread, hids⟩

/-- What is added needs a name. A key that is half of a pair of units is no text,
though it may be written, and nothing is read of an object with such a key. -/
theorem nameless_addition_refused :
    let hostname : Json.RawText × Json :=
      (.ofString "defaultHostname", .string (.ofString "app.test"))
    let nameless : Json.RawText × Json := ([.unit 0xD800], .number (.ofNat 1))
    let body := Utf8.encode "\x7b\"defaultHostname\":\"app.test\"\x7d"
    let body' := Utf8.encode "\x7b\"defaultHostname\":\"app.test\",\"\\ud800\":1\x7d"
    (∀ name, nameless.1.decode? ≠ some name) ∧
      Spaced (Spells (.object [hostname])) body ∧
      Spaced (Spells (.object [hostname, nameless])) body' ∧
      decode? defaultHostname? body = some (some "app.test") ∧
      decode? defaultHostname? body' = none := by
  intro hostname nameless body body'
  have hone := Json.Numeral.ofNat_regular 1
  have hwritten : (Json.object [hostname]).write = body := by decide +kernel
  have hwritten' : (Json.object [hostname, nameless]).write = body' := by decide +kernel
  have hbody : Spaced (Spells (.object [hostname])) body := by
    refine hwritten ▸ Json.spaced_of (Json.write_spells ?_)
    simp only [hostname, Json.Regular, Json.MembersRegular, and_true]
    decide
  have hbody' : Spaced (Spells (.object [hostname, nameless])) body' := by
    refine hwritten' ▸ Json.spaced_of (Json.write_spells ?_)
    simp only [hostname, nameless, Json.Regular, Json.MembersRegular, hone, and_true]
    decide
  refine ⟨by rintro _ ⟨⟩, hbody, hbody', decode?_eq_some_iff.2 ⟨_, hbody, rfl⟩, ?_⟩
  rw [decode?, Json.read?_eq_some_iff.2 hbody']
  rfl

end Admin

end ControlPlane
