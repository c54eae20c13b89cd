/-
Changes of a version, read back. A change is told four times: by its mask, by
its body, by what a reply makes of the same members, and by the operations that
go by the reply; and they all tell the same. What the keys of the mask lead to
in the body is what is set (`Patch.at?_mask`), and a version that has the members
of the body has the count (`VersionReply.ofJson?_reported`).
-/
import ControlPlane.Proofs.Agreement
import ControlPlane.Proofs.Json
import ControlPlane.Proofs.Record
import ControlPlane.Proofs.Requests

namespace ControlPlane

open Dialogue

/-- The value that keys lead to, from one object to the next inside. -/
def Json.at? : List String → Json → Option Json
  | [], j => some j
  | key :: keys, .object members =>
    (members.find? (·.1.decode? = some key)).bind fun member => at? keys member.2
  | _ :: _, _ => none

theorem Json.at?_cons {key : RawText} {name : String} (h : key.decode? = some name)
    (names : List String) (value : Json) (members : List (RawText × Json)) :
    Json.at? (name :: names) (.object ((key, value) :: members)) = Json.at? names value := by
  simp [Json.at?, h]

/-- With a number of its own to count to, a version has the instances below it. -/
theorem HostnameQuery.instanceName_manual (q : HostnameQuery) (suffix version : String)
    (i count : UInt32) : q.instanceName suffix version i (.manual count) =
      if i < count then .ok (join [segment i, version, q.module, suffix])
      else .error (.instanceNotFound i q.module version) := by
  by_cases hi : i < count
  · simp [instanceName, Scaling.manualInstances, hi]
  · simp [instanceName, Scaling.manualInstances, hi, UInt32.not_lt.1 hi]

namespace Admin

/-! ## Bodies and masks -/

/-- The keys that a mask is made of. -/
def maskKeys (mask : String) : List String := (mask.toList.splitOn '.').map String.ofList

namespace Patch

/-- The only member of the body. -/
def member : Patch → Json.RawText × Json
  | instances count => (.ofString "manualScaling",
      .object [(.ofString "instances", .number (.ofNat count.toNat))])
  | servingStatus status => (.ofString "servingStatus", .string (.ofString status.text))

theorem json_eq (change : Patch) : change.json = .object [change.member] := by
  cases change <;> rfl

/-- The value is what the change sets: the number, or a text that is read as the
status. -/
def Sets : Patch → Json → Prop
  | instances count, .number n => n.value? = some (.natural count.toNat)
  | servingStatus status, .string text =>
    ∃ name, text.decode? = some name ∧ ServingStatus.ofText name = .ok status
  | _, _ => False

theorem json_regular (change : Patch) : change.json.Regular := by
  cases change with
  | instances count =>
    simp only [json, Json.Regular, Json.MembersRegular, and_true]
    exact ⟨by decide, by decide, Json.Numeral.ofNat_regular _⟩
  | servingStatus status =>
    simp only [json, Json.Regular, Json.MembersRegular, and_true]
    cases status <;> exact ⟨by decide, by decide⟩

theorem read?_body (change : Patch) : Json.read? change.body = some (.object [change.member]) := by
  rw [body, Json.read?_write change.json_regular, json_eq]

/-- The mask leads to what is set, by the key of the member. -/
theorem at?_mask (change : Patch) : ∃ first rest value, maskKeys change.mask = first :: rest ∧
    change.member.1.decode? = some first ∧
    Json.at? (first :: rest) (.object [change.member]) = some value ∧ change.Sets value := by
  have hkey := Json.RawText.decode?_ofString
  cases change with
  | instances count =>
    have hmask : maskKeys (mask (.instances count)) = ["manualScaling", "instances"] := by
      change maskKeys "manualScaling.instances" = _
      decide
    refine ⟨_, _, .number (.ofNat count.toNat), hmask, hkey _, ?_, ?_⟩
    · rw [member, Json.at?_cons (hkey _), Json.at?_cons (hkey _), Json.at?]
    · have hsize : UInt32.size < UInt64.size := by decide
      exact Json.Numeral.value?_ofNat (Nat.lt_trans count.toNat_lt hsize)
  | servingStatus status =>
    have hmask : maskKeys (mask (.servingStatus status)) = ["servingStatus"] := by
      change maskKeys "servingStatus" = _
      decide
    refine ⟨_, _, .string (.ofString status.text), hmask, hkey _, ?_, ?_⟩
    · rw [member, Json.at?_cons (hkey _), Json.at?]
    · exact ⟨status.text, hkey _, status.ofText_text⟩

end Patch

/-! ## Replies -/

namespace VersionReply

/-- The fields that a version is read by. -/
def fields : List String := ["id", "manualScaling", "basicScaling"]

/-- The members are those of a body, an id, and others that no version is read
by, in any order. -/
def Reported (body : List (Json.RawText × Json)) (id : String)
    (members : List (Json.RawText × Json)) : Prop :=
  ∃ idKey idText others, members.Perm (body ++ (idKey, .string idText) :: others) ∧
    idKey.decode? = some "id" ∧ idText.decode? = some id ∧
    ∀ member ∈ others, ∃ name, member.1.decode? = some name ∧ name ∉ fields

theorem instances?_ofNat (count : UInt32) :
    instances? (.object [(.ofString "instances", .number (.ofNat count.toNat))]) =
      some count := by
  let number : Json := .number (.ofNat count.toNat)
  obtain ⟨r, hrecord, -, hfield⟩ : ∃ r, Json.record? ["instances"]
      (.object [(.ofString "instances", number)]) = some r ∧ r.positional = false ∧
        ∀ name j, r.field? name = some j ↔ (name, j) ∈ [("instances", number)] :=
    Json.record?_of_perm [_] [_] (.refl _)
      (.cons ⟨Json.RawText.decode?_ofString _, rfl⟩ .nil) (by simp) (by simp)
      (List.forall_mem_nil _)
  have hvalue := (hfield "instances" _).2 (List.mem_singleton.2 rfl)
  rw [instances?, hrecord]
  simp only [Option.bind_eq_bind, Option.bind_some, Json.Record.defaulted?, hvalue]
  exact Json.uint32?_ofNat count

/-- A version that has the members of a body that sets a count has the count. -/
theorem ofJson?_reported {count : UInt32} {id : String} {members : List (Json.RawText × Json)}
    (h : Reported [(Patch.instances count).member] id members) (depth : Nat) :
    ofJson? depth (.object members) = some ⟨id, some count, false⟩ := by
  obtain ⟨idKey, idText, others, hperm, hidKey, hidText, hothers⟩ := h
  obtain ⟨r, hrecord, hpositional, hfield⟩ := Json.record?_of_perm
    [(Patch.instances count).member, (idKey, .string idText)]
    [("manualScaling", (Patch.instances count).member.2), ("id", .string idText)]
    hperm (.cons ⟨Json.RawText.decode?_ofString _, rfl⟩ (.cons ⟨hidKey, rfl⟩ .nil))
    (by simp [fields]) (by simp) hothers
  have hid : r.field? "id" = some (.string idText) := (hfield _ _).2 (by simp)
  have hmanual : r.field? "manualScaling" = some (Patch.instances count).member.2 :=
    (hfield _ _).2 (by simp)
  have hbasic : r.field? "basicScaling" = none := by
    refine Option.eq_none_iff_forall_ne_some.2 fun j hj => ?_
    simpa using (hfield _ _).1 hj
  have hcount : Json.optional? instances? (Patch.instances count).member.2 = some (some count) :=
    congrArg (Option.map some) (instances?_ofNat count)
  rw [fields] at hrecord
  rw [ofJson?, hrecord]
  simp [Json.Record.required?, Json.Record.optional?, hid, hmanual, hbasic, hpositional, hcount,
    Json.string?, hidText]

/-- What no version is read by makes no difference to one. -/
theorem ofJson?_unknown {member : Json.RawText × Json} {name : String}
    (hkey : member.1.decode? = some name) (hname : name ∉ fields) (depth : Nat)
    (before after : List (Json.RawText × Json)) :
    ofJson? depth (.object (before ++ member :: after)) =
      ofJson? depth (.object (before ++ after)) := by
  have hrecord := Json.record?_unknown hkey hname before after
  rw [fields] at hrecord
  rw [ofJson?, ofJson?, hrecord]

end VersionReply

variable {answer : Method → String → Reply} {project module name : String}

/-- What a version is read to be when its body is of this form. -/
theorem versionRead_of_reported {count : UInt32} {id : String}
    {members : List (Json.RawText × Json)} {body : Bytes}
    (h : VersionReply.Reported [(Patch.instances count).member] id members)
    (hanswer : answer .get (Path.version project module name).write = .ok body)
    (hbody : Json.read? body = some (.object members)) :
    versionRead answer project module name = .ok ⟨id, some count, false⟩ := by
  have hreply : decode? (VersionReply.ofJson? 1) body = some ⟨id, some count, false⟩ := by
    rw [decode?, hbody, Option.bind_some, VersionReply.ofJson?_reported h]
  simp only [versionRead, hanswer, fetched, hreply]

open HostnameQuery (join segment)

/-! ## Operations -/

/-- Operations find that a version has this count: it is what they are told when
they ask for it, and the instances below it are those that can be addressed. -/
structure Finds (answer : Method → String → Reply) (project : String) (endpoint : Endpoint)
    (identity : Identity) (module version : Option String) (name : String) (count : UInt32) :
    Prop where
  counted : Yields (byPath answer) (((Access.admin project endpoint).client identity).perform
    (.instanceCount module version)).run (.ok (.count count))
  /-- In an application with several modules. -/
  addressed : ∀ names suffix, Reports answer project names suffix →
    identity.moduleFor module ∈ names → ∀ raw i, parseInstance raw = .ok i →
      Yields (byPath answer) (((Access.admin project endpoint).client identity).perform
        (.hostname module version (some raw))).run
          (if i < count then
            .ok (.text (join [segment i, name, identity.moduleFor module, suffix]))
          else .error (.instanceNotFound i (identity.moduleFor module) name))

theorem finds_of_reported {endpoint : Endpoint} {identity : Identity}
    {module version : Option String} {id : String} {count : UInt32}
    {members : List (Json.RawText × Json)} {body : Bytes}
    (hversion : identity.versionFor version = some name)
    (h : VersionReply.Reported [(Patch.instances count).member] id members)
    (hanswer : answer .get (Path.version project (identity.moduleFor module) name).write = .ok body)
    (hbody : Json.read? body = some (.object members)) :
    Finds answer project endpoint identity module version name count := by
  have hread := versionRead_of_reported h hanswer hbody
  constructor
  · have hcall : (Operation.instanceCount module version).call identity =
        .ok (.instanceCount (identity.moduleFor module) name) := by
      rw [Operation.call, Identity.callFor, hversion]
    obtain ⟨made, hends⟩ := instanceCount_yields answer project (identity.moduleFor module) name
    rw [hread] at hends
    exact ⟨made, (Access.admin project endpoint).ends_of_call hcall (hends.run_map Answer.count)⟩
  · intro names suffix hreports hmem raw i hraw
    have hcall : (Operation.hostname module version (some raw)).call identity =
        .ok (.hostname ⟨identity.moduleFor module, identity.selectorFor version, some i⟩) := by
      refine Operation.call_of_parseInstance? ?_
      rw [parseInstance?, hraw, Except.map]
    have hname : HostnameQuery.versionName
        ⟨identity.moduleFor module, identity.selectorFor version, some i⟩ = .ok name := by
      rw [HostnameQuery.versionName, Identity.name_selectorFor, hversion]
    obtain ⟨made, hends⟩ := hreports.indexed_yields hmem hname rfl hread
    have houtcome := (Access.admin project endpoint).ends_of_call hcall (hends.run_map Answer.text)
    have hscaling : VersionReply.scaling ⟨id, some count, false⟩ = .manual count := rfl
    rw [Operation.settled_of_ne (.inl rfl), hscaling, HostnameQuery.instanceName_manual,
      apply_ite (Except.map Answer.text)] at houtcome
    exact ⟨made, houtcome⟩

/-- What a patch with this mask and this member means to those who read it. -/
structure Patch.ReadsBack (change : Patch) (project : String) (endpoint : Endpoint)
    (identity : Identity) (module version : Option String) (name mask : String)
    (member : Json.RawText × Json) : Prop where
  /-- The member is the one that the mask names first, and the keys of the mask
  lead to what is set. -/
  masked : ∃ first rest value, maskKeys mask = first :: rest ∧ member.1.decode? = some first ∧
    Json.at? (first :: rest) (.object [member]) = some value ∧ change.Sets value
  /-- A version that is told by this member and an id, and by others no version
  is read by, is scaled by hand and has the count. -/
  scaled : ∀ count, change = .instances count → ∀ id members,
    VersionReply.Reported [member] id members → ∀ depth, ∃ reply,
      VersionReply.ofJson? depth (.object members) = some reply ∧ reply.id = id ∧
        reply.scaling = .manual count
  /-- So operations find that it has. -/
  found : ∀ count, change = .instances count → ∀ id members,
    VersionReply.Reported [member] id members → ∀ answer body,
      answer .get (Path.version project (identity.moduleFor module) name).write = .ok body →
      Json.read? body = some (.object members) →
        Finds answer project endpoint identity module version name count
  /-- A status is all that its mask names, and makes no difference to how a
  version is scaled. -/
  unscaled : ∀ status, change = .servingStatus status → (∃ key, maskKeys mask = [key]) ∧
    ∀ depth before after, VersionReply.ofJson? depth (.object (before ++ member :: after)) =
      VersionReply.ofJson? depth (.object (before ++ after))

theorem Patch.readsBack (change : Patch) (project : String) (endpoint : Endpoint)
    {identity : Identity} (module : Option String) {version : Option String} {name : String}
    (hversion : identity.versionFor version = some name) :
    change.ReadsBack project endpoint identity module version name change.mask change.member where
  masked := change.at?_mask
  scaled := by
    intro count hchange id members hreported depth
    subst hchange
    exact ⟨_, VersionReply.ofJson?_reported hreported depth, rfl, rfl⟩
  found := by
    intro count hchange id members hreported answer body hanswer hbody
    subst hchange
    exact finds_of_reported hversion hreported hanswer hbody
  unscaled := by
    intro status hchange
    subst hchange
    refine ⟨⟨"servingStatus", by change maskKeys "servingStatus" = _; decide⟩, ?_⟩
    exact VersionReply.ofJson?_unknown (Json.RawText.decode?_ofString "servingStatus")
      (by decide)

/-- **A change reads back as what was set.** The one request of an operation that
changes a version is a patch of that version, whose body is an object of one
member; and the member is what the mask says and means what was to be set. -/
theorem patch_reads_back (project : String) (endpoint : Endpoint) (identity : Identity)
    {op : Operation} {change : Patch} {module version : Option String} {name : String}
    (hchange : op.change? = some change) (htarget : op.target? = some (module, version))
    (hversion : identity.versionFor version = some name) :
    ∃ path body mask member,
      (∀ replies, (Access.admin project endpoint).requests identity op replies =
        [.patch path body op.tag]) ∧
      Resource.read? path = some (project, .patch (identity.moduleFor module) name mask) ∧
      Json.read? body = some (.object [member]) ∧
      change.ReadsBack project endpoint identity module version name mask member :=
  ⟨_, change.body, change.mask, change.member,
    Access.requests_patch project endpoint hchange htarget hversion,
    Resource.read?_write project (.patch (identity.moduleFor module) name change.mask),
    change.read?_body, change.readsBack project endpoint module hversion⟩

/-- A version is given three instances, and a reply has that among its members. -/
theorem patch_reads_back_three :
    let endpoint : Endpoint := ⟨"https://api.test", 60000, "", none⟩
    let members : List (Json.RawText × Json) := [(.ofString "env", .string (.ofString "flex")),
      (Patch.instances 3).member, (.ofString "id", .string (.ofString "v1"))]
    ∃ body, (∀ replies, (Access.admin "demo" endpoint).requests .unknown
        (.setInstanceCount 3 (some "api") (some "v1")) replies =
          [.patch "apps/demo/services/api/versions/v1?updateMask=manualScaling.instances" body
            "set_num_instances"]) ∧
      Json.read? body = some (.object [(Patch.instances 3).member]) ∧
      ∀ answer, answer .get "apps/demo/services/api/versions/v1?view=FULL" =
          .ok (Json.write (.object members)) →
        Finds answer "demo" endpoint .unknown (some "api") (some "v1") "v1" 3 := by
  intro endpoint members
  let op : Operation := .setInstanceCount 3 (some "api") (some "v1")
  have hversion : Identity.unknown.versionFor (some "v1") = some "v1" := rfl
  obtain ⟨path, body, mask, member, hrequests, -, hbody, hreads⟩ :=
    patch_reads_back "demo" endpoint .unknown (show op.change? = _ from rfl) rfl hversion
  have hwritten : (Path.versionPatch "demo" "api" "v1" "manualScaling.instances").write =
      "apps/demo/services/api/versions/v1?updateMask=manualScaling.instances" := rfl
  have hpatch :=
    Access.requests_patch "demo" endpoint (show op.change? = _ from rfl) rfl hversion []
  rw [hrequests [], List.cons.injEq, Request.patch.injEq] at hpatch
  obtain ⟨⟨rfl, rfl, -⟩, -⟩ := hpatch
  have hmember : member = (Patch.instances 3).member := by
    simpa using hbody.symm.trans (Patch.read?_body (.instances 3))
  subst hmember
  refine ⟨_, hwritten ▸ hrequests, hbody, fun answer hanswer => ?_⟩
  have hregular : (Json.object members).Regular := by
    simp only [members, Patch.member, Json.Regular, Json.MembersRegular, and_true]
    exact ⟨by decide, by decide, by decide, ⟨by decide, Json.Numeral.ofNat_regular _⟩, by decide,
      by decide⟩
  have hreported : VersionReply.Reported [(Patch.instances 3).member] "v1" members :=
    ⟨_, _, [(.ofString "env", .string (.ofString "flex"))], @List.perm_append_comm _ [_] [_, _],
      Json.RawText.decode?_ofString _, Json.RawText.decode?_ofString _,
      List.forall_mem_singleton.2 ⟨"env", Json.RawText.decode?_ofString _, by decide⟩⟩
  exact hreads.found 3 rfl "v1" members hreported answer _ hanswer (Json.read?_write hregular)

end Admin
end ControlPlane
