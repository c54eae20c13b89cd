/-
What a reply over HTTP comes to. A success is its body. Any other reply is a
fault with a detail, and the detail is told here from the bytes of the reply
alone: the message of an error envelope (`Complains`), or else the text that the
bytes are repaired to, whole or cut behind a character (`Preview`). Each reply
has just one detail (`detail_iff`).
-/
import ControlPlane.Admin.Http
import ControlPlane.Proofs.Additions
import ControlPlane.Proofs.Repair

namespace ControlPlane

namespace Json

/-! ## Envelopes -/

/-- A record of one field: an object in which one key is its name, or an array of
its value alone. -/
inductive Sole (name : String) (value : Json) : Json → Prop
  | object {before after : List (RawText × Json)} {key : RawText} : key.decode? = some name →
      (∀ member ∈ before ++ after, Foreign [name] member) →
      Sole name value (.object (before ++ (key, value) :: after))
  | array : Sole name value (.array [value])

variable {name : String} {value j : Json} {members : List (RawText × Json)}

theorem foreign_of_named {names : List String} {named : List (String × Json)}
    (h : List.Forall₂ (Holds some) members named) (hnames : ∀ field ∈ named, field.1 ∉ names) :
    ∀ member ∈ members, Foreign names member := by
  induction h with
  | nil => exact fun _ hmem => absurd hmem List.not_mem_nil
  | cons hholds _ ih =>
    obtain ⟨hname, hnames⟩ := List.forall_mem_cons.1 hnames
    exact List.forall_mem_cons.2 ⟨⟨_, hholds.1, hname⟩, ih hnames⟩

/-- Members whose names are told apart are taken apart where their names are. -/
theorem sole_of_named {before after : List (String × Json)}
    (hnamed : List.Forall₂ (Holds some) members (before ++ (name, value) :: after))
    (hothers : ∀ field ∈ before ++ after, field.1 ∉ [name]) :
    Sole name value (.object members) := by
  have hbefore := List.forall₂_take_append _ _ _ hnamed
  obtain ⟨member, rest, ⟨hkey, hvalue⟩, hafter, hrest⟩ :=
    List.forall₂_cons_right_iff.1 (List.forall₂_drop_append _ _ _ hnamed)
  cases hvalue
  rw [← List.take_append_drop before.length members, hrest]
  exact .object hkey (foreign_of_named (List.rel_append hbefore hafter) hothers)

theorem record?_sole (h : Sole name value j) :
    ∃ r, record? [name] j = some r ∧ r.field? name = some value := by
  cases h with
  | array => exact ⟨⟨[(name, value)], true⟩, rfl, by simp [Record.field?]⟩
  | @object before after key hkey hothers =>
    have hperm : (before ++ (key, value) :: after).Perm ([(key, value)] ++ (before ++ after)) :=
      List.perm_middle
    have hknown : Holds some (key, value) (name, value) := ⟨hkey, rfl⟩
    obtain ⟨r, hr, -, hfields⟩ := record?_of_perm [(key, value)] [(name, value)] hperm
      (.cons hknown .nil) (by simp) (List.nodup_singleton name) hothers
    exact ⟨r, hr, (hfields name value).2 (List.mem_singleton_self _)⟩

theorem sole_of_record? {r : Record} (h : record? [name] j = some r)
    (hfield : r.field? name = some value) : Sole name value j := by
  cases j with
  | object members =>
    obtain ⟨named, hnamed, hdistinct, rfl⟩ := record?_object_eq_some_iff.1 h
    have hmem := List.mem_of_mem_filter ((Record.field?_eq_some_iff hdistinct).1 hfield)
    obtain ⟨before, after, rfl⟩ := List.append_of_mem hmem
    -- The name is there once, so it is the name of no member in front or behind.
    rw [List.filter_append, List.filter_cons_of_pos (by simp), List.map_append, List.map_cons,
      List.nodup_middle, ← List.map_append, ← List.filter_append] at hdistinct
    refine sole_of_named hnamed fun field hother hname => (List.nodup_cons.1 hdistinct).1 ?_
    exact List.mem_map.2 ⟨field, List.mem_filter.2 ⟨hother, decide_eq_true hname⟩,
      List.mem_singleton.1 hname⟩
  | array items =>
    rw [record?] at h
    split at h
    · next hfit =>
      cases h
      cases items with
      | nil => cases hfield
      | cons item items =>
        have hnil : items = [] := by simpa using hfit
        have hvalue : item = value := by simpa [Record.field?] using hfield
        exact hnil ▸ hvalue ▸ .array
    · cases h
  | _ => cases h

theorem record?_sole_iff :
    (∃ r, record? [name] j = some r ∧ r.field? name = some value) ↔ Sole name value j :=
  ⟨fun ⟨_, h, hfield⟩ => sole_of_record? h hfield, record?_sole⟩

end Json

namespace Utf8

theorem scan_encode_append (s : String) (rest : Bytes) :
    scan (encode s ++ rest) = s.toList.map some ++ scan rest := by
  rw [encode]
  induction s.toList with
  | nil => rfl
  | cons c cs ih => rw [List.flatMap_cons, List.append_assoc, scan_char, ih, List.map_cons,
      List.cons_append]

/-- A text whose bytes are in front of those of another is made of the characters
in front. -/
theorem toList_of_encode {text shown : String} {rest : Bytes}
    (h : encode text = encode shown ++ rest) : shown.toList = text.toList.take shown.length := by
  have hscan : text.toList.map some = shown.toList.map some ++ scan rest := by
    rw [← scan_encode, h, scan_encode_append]
  have htake := congrArg (List.take shown.length) hscan
  rw [← String.length_toList, ← List.map_take, List.take_left' (List.length_map some)] at htake
  exact ((List.map_inj_right fun _ _ => Option.some.inj).1 htake).symm

end Utf8

namespace Admin

open Json (Sole Spaced Spells)

/-- An error envelope with this message. -/
def Envelope (message : String) (j : Json) : Prop :=
  ∃ error text, Sole "error" error j ∧ Sole "message" (.string text) error ∧
    text.decode? = some message

/-- The body is an error envelope with this message. -/
def Complains (body : Bytes) (message : String) : Prop :=
  ∃ j, Spaced (Spells j) body ∧ Envelope message j

theorem required?_sole {α : Type} {name : String} {value? : Json → Option α} {j : Json} {x : α} :
    ((j.record? [name]).bind fun r => r.required? name value?) = some x ↔
      ∃ value, Sole name value j ∧ value? value = some x := by
  simp only [Option.bind_eq_some_iff, Json.Record.required?, ← Json.record?_sole_iff]
  constructor
  · rintro ⟨r, hr, value, hvalue, hx⟩
    exact ⟨value, ⟨r, hr, hvalue⟩, hx⟩
  · rintro ⟨value, ⟨r, hr, hvalue⟩, hx⟩
    exact ⟨r, hr, value, hvalue, hx⟩

theorem errorMessage?_eq_some_iff {j : Json} {message : String} :
    errorMessage? j = some message ↔ Envelope message j := by
  have hmessage : ∀ error : Json, (error.record? ["message"]).bind
      (fun r => r.required? "message" Json.string?) = some message ↔
        ∃ text, Sole "message" (.string text) error ∧ text.decode? = some message := by
    intro error
    rw [required?_sole]
    constructor
    · rintro ⟨value, hvalue, hx⟩
      cases value with
      | string text => exact ⟨text, hvalue, hx⟩
      | _ => cases hx
    · rintro ⟨text, htext, hx⟩
      exact ⟨_, htext, hx⟩
  refine required?_sole.trans (exists_congr fun error => ?_)
  exact (and_congr_right fun _ => hmessage error).trans exists_and_left.symm

theorem decode?_errorMessage?_iff {body : Bytes} {message : String} :
    decode? errorMessage? body = some message ↔ Complains body message := by
  simp only [decode?_eq_some_iff, errorMessage?_eq_some_iff, Complains]

/-! ## Previews -/

/-- What is shown of a text: the text, if it has at most 256 characters, or the
256 in front of it. These are cut off at a byte, and behind a character. -/
inductive Preview (text : String) : String → Prop
  | whole : text.length ≤ 256 → Preview text text
  | cut {shown : String} {rest : Bytes} : 256 < text.length →
      Utf8.encode text = Utf8.encode shown ++ rest → shown.length = 256 →
      Preview text (shown ++ "...")

theorem Preview.length_le {text detail : String} (h : Preview text detail) :
    detail.length ≤ 259 := by
  cases h with
  | whole h => omega
  | cut _ _ h =>
    rw [String.length_append, h]
    decide

theorem preview_iff {text detail : String} : Preview text detail ↔ preview text = detail := by
  have hlength : text.toList.length = text.length := String.length_toList
  rw [preview, previewLimit, hlength]
  constructor
  · intro h
    cases h with
    | whole h => exact if_neg (Nat.not_lt.2 h)
    | cut hlong hbytes hshown =>
      rw [if_pos hlong, ← hshown, ← Utf8.toList_of_encode hbytes, String.ofList_append,
        String.ofList_toList, String.ofList_toList]
  · rintro rfl
    split
    · next hlong =>
      have hbytes : Utf8.encode text = Utf8.encode (String.ofList (text.toList.take 256)) ++
          (text.toList.drop 256).flatMap String.utf8EncodeChar := by
        rw [Utf8.encode, Utf8.encode, String.toList_ofList, ← List.flatMap_append,
          List.take_append_drop]
      have hshown : (String.ofList (text.toList.take 256)).length = 256 := by
        rw [String.length_ofList, List.length_take, hlength]
        omega
      rw [String.ofList_append, String.ofList_toList]
      exact .cut hlong hbytes hshown
    · next h => exact .whole (Nat.not_lt.1 h)

/-! ## Details -/

/-- What a reply says that is no success. -/
inductive Detail (body : Bytes) : String → Prop
  | message {message : String} : Complains body message → Detail body message
  | preview {text detail : String} : (∀ message, ¬ Complains body message) →
      Utf8.Repairs body text.toList → Preview text detail → Detail body detail

theorem detail_iff {body : Bytes} {detail : String} :
    Detail body detail ↔ errorDetail body = detail := by
  rw [errorDetail]
  cases hmessage : decode? errorMessage? body with
  | some message =>
    have hcomplains : Complains body message := decode?_errorMessage?_iff.1 hmessage
    rw [Option.getD_some]
    constructor
    · intro h
      cases h with
      | message h =>
        exact Option.some.inj (hmessage.symm.trans (decode?_errorMessage?_iff.2 h))
      | preview hnone => exact absurd hcomplains (hnone message)
    · rintro rfl
      exact .message hcomplains
  | none =>
    have hnone : ∀ message, ¬ Complains body message := fun message h => by
      cases hmessage.symm.trans (decode?_errorMessage?_iff.2 h)
    rw [Option.getD_none]
    constructor
    · intro h
      cases h with
      | message h => exact absurd h (hnone _)
      | preview _ htext hpreview => rw [Utf8.repairs_iff.1 htext, preview_iff.1 hpreview]
    · intro h
      exact .preview hnone (Utf8.repairs_iff.2 rfl) (preview_iff.2 h)

/-- **Every reply comes to a body or to one detail.** -/
theorem reply_detail (e : Endpoint) (perform : HttpRequest → HttpEnding) (method : Method)
    (path : String) (body : Option Bytes) (caller : String) {request : HttpRequest} {status : Nat}
    {reply : Bytes} (hrequest : e.prepare method path body caller = .ok request)
    (hreply : perform request = .replied status reply) :
    (200 ≤ status ∧ status < 300 → e.exchange perform method path body caller = .ok reply) ∧
      (¬ (200 ≤ status ∧ status < 300) → ∃ detail,
        e.exchange perform method path body caller = .error (.http status detail) ∧
        (∀ other, Detail reply other ↔ detail = other) ∧
        ((∀ message, ¬ Complains reply message) → detail.length ≤ 259)) := by
  have hexchange : e.exchange perform method path body caller = if isSuccess status then .ok reply
      else .error (.http status (errorDetail reply)) := by
    simp only [Endpoint.exchange, hrequest, hreply, Endpoint.reply]
  have hsuccess : isSuccess status = true ↔ 200 ≤ status ∧ status < 300 := by
    simp only [isSuccess, Bool.and_eq_true, decide_eq_true_eq]
  rw [hexchange]
  refine ⟨fun h => if_pos (hsuccess.2 h), fun h => ⟨errorDetail reply, if_neg (mt hsuccess.1 h),
    fun other => detail_iff, fun hnone => ?_⟩⟩
  cases detail_iff.2 (Eq.refl (errorDetail reply)) with
  | message hmessage => exact absurd hmessage (hnone _)
  | preview _ _ hpreview => exact hpreview.length_le

/-- A gateway replies with a page of bytes that are not all text: three that begin
a character make one gap, and one that begins none makes another. -/
theorem reply_detail_gaps :
    let e : Endpoint := ⟨"https://api.test", 60000, "client", none⟩
    let reply : Bytes := [0x6F, 0xF0, 0x9F, 0x98, 0x6B, 0xFF]
    e.exchange (fun _ => .replied 502 reply) .get "apps/demo" none "get_modules" =
      .error (.http 502 "o\uFFFDk\uFFFD") := by
  intro e reply
  have hrequest : e.prepare .get "apps/demo" none "get_modules" =
      .ok ⟨.get, ⟨some "https", "api.test", "/apps/demo", none⟩,
        [("user-agent", "client/get_modules"), ("accept", "application/json")], []⟩ := by
    decide +kernel
  obtain ⟨detail, hexchange, hdetail, -⟩ :=
    (reply_detail e (fun _ => .replied 502 reply) .get "apps/demo" none "get_modules" hrequest
      rfl).2 (by decide)
  have hnone : ∀ message, ¬ Complains reply message := fun message h => by
    have hread : decode? errorMessage? reply = none := by rfl
    cases hread.symm.trans (decode?_errorMessage?_iff.2 h)
  have hshown : Detail reply "o\uFFFDk\uFFFD" :=
    .preview hnone (Utf8.repairs_iff.2 (by decide)) (.whole (by decide))
  rw [hexchange, (hdetail _).1 hshown]

end Admin

end ControlPlane
