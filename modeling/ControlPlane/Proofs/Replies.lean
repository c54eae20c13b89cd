/-
What replies come to. Bytes that spell the message of a reply make its call
answer with what the message tells (`comes_of_spells`, `read_tells`), and bytes
that are no encoding of one make it fail (`comes_of_not_isEncoding`). A number is
told as a count only if it is one, and so a count comes back as it was sent.
-/
import ControlPlane.Proofs.Demand

namespace ControlPlane.Legacy

open Dialogue

/-- What a call answers when the reply is this message. A number that is not a
count is of no use. -/
inductive Tells : Backend.Call → Message → Except Failure Answer → Prop
  | modules {names} : Tells .listModules [⟨1, "module", .names names⟩] (.ok (.names names))
  | versions {module names} :
      Tells (.listVersions module) [⟨1, "version", .names names⟩] (.ok (.names names))
  | defaultVersion {module version} :
      Tells (.defaultVersion module) [⟨1, "version", .text version⟩] (.ok (.text version))
  | count {module version} {n : Int} {count : UInt32} : n = count.toNat →
      Tells (.instanceCount module version) [⟨1, "instances", .int n⟩] (.ok (.count count))
  | noCount {module version detail} {n : Int} : ¬ (0 ≤ n ∧ n ≤ 4294967295) →
      Tells (.instanceCount module version) [⟨1, "instances", .int n⟩]
        (.error (.generic detail none))
  | setInstances {module version count} :
      Tells (.setInstanceCount module version count) [] (.ok .done)
  | setStatus {module version status} :
      Tells (.setServingStatus module version status) [] (.ok .done)
  | hostname {q hostname} :
      Tells (.hostname q) [⟨1, "hostname", .text hostname⟩] (.ok (.text hostname))

/-- The call is one request, and a reply to it of these bytes is what it comes to. -/
def Comes (call : Backend.Call) (reply : Bytes) (outcome : Except Failure Answer) : Prop :=
  ∀ server : Server Request Reply, (∀ request, server [] request = .ok reply) →
    ∃ request, Ends server (backend.perform call).run [request] outcome

theorem comes_read (call : Backend.Call) (reply : Bytes) :
    Comes call reply ((call.method.outcome (.ok reply)).bind call.read) := by
  intro server hserver
  have hends := perform_ends server call
  rw [hserver] at hends
  exact ⟨_, hends⟩

/-! ## Messages of a type -/

/-- A message of a type with one slot has that slot, with a datum of its kind. -/
theorem blank_eq_singleton {m : Message} {number : Nat} {name : String} {blank : Datum}
    (h : m.blank = [⟨number, name, blank⟩]) :
    ∃ datum : Datum, m = [⟨number, name, datum⟩] ∧ datum.blank = blank := by
  obtain ⟨slot, rfl, hslot⟩ := List.map_eq_singleton_iff.1 h
  cases hslot
  exact ⟨slot.datum, rfl, rfl⟩

theorem Datum.blank_eq_names {datum : Datum} (h : datum.blank = .names []) :
    ∃ names, datum = .names names := by
  cases datum <;> cases h
  exact ⟨_, rfl⟩

theorem Datum.blank_eq_text {datum : Datum} (h : datum.blank = .text "") :
    ∃ text, datum = .text text := by
  cases datum <;> cases h
  exact ⟨_, rfl⟩

theorem Datum.blank_eq_int {datum : Datum} (h : datum.blank = .int 0) : ∃ n, datum = .int n := by
  cases datum <;> cases h
  exact ⟨_, rfl⟩

theorem reply_numbers_nodup (call : Backend.Call) : call.method.reply.numbers.Nodup := by
  cases call with
  | setServingStatus module version status => cases status <;> exact .nil
  | setInstanceCount => exact .nil
  | _ => exact List.nodup_singleton 1

/-- What a number comes to as a count. -/
theorem count_tells (module version : String) (n : Int) :
    Tells (.instanceCount module version) [⟨1, "instances", .int n⟩]
      ((count module version n).map .count) := by
  have hsize : (UInt32.size : Int) = 0x100000000 := rfl
  unfold count
  split
  · next h =>
    have hsmall : n.toNat < UInt32.size := by omega
    refine .count ?_
    rw [UInt32.toNat_ofNat_of_lt' hsmall, Int.toNat_of_nonneg h.1]
  · next h => exact .noCount (by omega)

/-- A number that is a count tells just that. -/
theorem Tells.count_eq {module version : String} {n : Int} {count : UInt32}
    {outcome : Except Failure Answer} (hn : n = count.toNat)
    (h : Tells (.instanceCount module version) [⟨1, "instances", .int n⟩] outcome) :
    outcome = .ok (.count count) := by
  cases h with
  | count hcount => rw [UInt32.toNat_inj.1 (Int.ofNat_inj.1 (hcount.symm.trans hn))]
  | noCount hno =>
    have hsmall : count.toNat < 0x100000000 := count.toNat_lt
    exact absurd (by omega) hno

/-- What the reply's message is read as is what it tells. -/
theorem read_tells {call : Backend.Call} {m : Message} (h : m.blank = call.method.reply) :
    Tells call m (call.read m) := by
  cases call with
  | listModules | listVersions =>
    obtain ⟨datum, rfl, hdatum⟩ := blank_eq_singleton h
    obtain ⟨names, rfl⟩ := Datum.blank_eq_names hdatum
    constructor
  | defaultVersion | hostname =>
    obtain ⟨datum, rfl, hdatum⟩ := blank_eq_singleton h
    obtain ⟨text, rfl⟩ := Datum.blank_eq_text hdatum
    constructor
  | instanceCount module version =>
    obtain ⟨datum, rfl, hdatum⟩ := blank_eq_singleton h
    obtain ⟨n, rfl⟩ := Datum.blank_eq_int hdatum
    exact count_tells module version n
  | setInstanceCount =>
    obtain rfl : m = [] := List.map_eq_nil_iff.1 h
    exact .setInstances
  | setServingStatus module version status =>
    obtain rfl : m = [] := List.map_eq_nil_iff.1 (h.trans (by cases status <;> rfl))
    exact .setStatus

/-! ## Replies -/

theorem comes_of_spells {call : Backend.Call} {m : Message} {reply : Bytes}
    (htype : m.blank = call.method.reply) (hrange : ∀ slot ∈ m, slot.datum.InRange)
    (h : m.Spells reply) : Comes call reply (call.read m) := by
  have hnumbers : m.numbers = call.method.reply.numbers := by
    rw [← htype, Message.numbers, Message.numbers, Message.blank, List.map_map]
    rfl
  have hdecode : Message.decode? call.method.reply reply = some m := by
    rw [← htype]
    exact Message.decode?_of_spells (hnumbers ▸ reply_numbers_nodup call) hrange h
  have hcomes := comes_read call reply
  simp only [Method.outcome, hdecode] at hcomes
  exact hcomes

theorem comes_of_not_isEncoding {call : Backend.Call} {reply : Bytes}
    (h : ¬ call.method.reply.IsEncoding reply) :
    ∃ detail, Comes call reply (.error (.generic detail none)) := by
  have hdecode : Message.decode? call.method.reply reply = none := by
    refine Option.eq_none_iff_forall_ne_some.2 fun m hm => h ?_
    exact (Message.exists_decode?_iff (reply_numbers_nodup call)).1 ⟨m, hm⟩
  have hcomes := comes_read call reply
  simp only [Method.outcome, hdecode] at hcomes
  exact ⟨_, hcomes⟩

/-- **Replies are read back.** What spells a message of the reply's type, with
any fields between that the type does not have, comes to what the message tells;
what is no encoding of one comes to a failure without a code. And the number that
is read of a request for a count, replied, comes to the count. -/
theorem replies_read_back :
    (∀ (call : Backend.Call) (m : Message) (reply : Bytes), m.blank = call.method.reply →
      (∀ slot ∈ m, slot.datum.InRange) → m.Spells reply →
      ∃ outcome, Comes call reply outcome ∧ Tells call m outcome) ∧
    (∀ (call : Backend.Call) (reply : Bytes), ¬ call.method.reply.IsEncoding reply →
      ∃ detail, Comes call reply (.error (.generic detail none))) ∧
    ∀ module version count method request,
      (Backend.Call.setInstanceCount module version count).Storable →
      Sends (.setInstanceCount module version count) method request →
      ∃ instances, Demand.read? method request =
          some (.setInstances (some module) (some version) instances) ∧
        ∀ reply, Message.Spells [⟨1, "instances", .int instances⟩] reply →
          Comes (.instanceCount module version) reply (.ok (.count count)) := by
  refine ⟨fun call m reply htype hrange hspells => ?_, fun call reply h => ?_,
    fun module version count method request hstorable hsends => ?_⟩
  · exact ⟨call.read m, comes_of_spells htype hrange hspells, read_tells htype⟩
  · exact comes_of_not_isEncoding h
  · obtain ⟨rfl, rfl⟩ := sends_iff.1 hsends
    obtain ⟨asked, hread, hasks⟩ := read?_encode hstorable
    cases hasks with
    | @setInstances _ _ _ instances hcount =>
      refine ⟨instances, hread, fun reply hreply => ?_⟩
      have hrange : (Datum.int instances).InRange := hcount ▸ Datum.inRange_count count
      have hcomes : Comes (.instanceCount module version) reply
          ((Legacy.count module version instances).map .count) :=
        comes_of_spells rfl (List.forall_mem_singleton.2 hrange) hreply
      rwa [(count_tells module version instances).count_eq hcount] at hcomes

/-- A reply with fields in it that its type does not have, one that ends before
its text does, and the largest count there and back. -/
theorem replies_read_back_unknown_fields :
    Comes .listModules
        (Wire.write [(7, .varint 300), (1, .delimited (Utf8.encode "web")),
          (9, .fixed32 [0, 0, 0, 1]), (1, .delimited (Utf8.encode "worker"))])
        (.ok (.names ["web", "worker"])) ∧
      (∃ detail, Comes .listModules [0x0A, 3, 0x77] (.error (.generic detail none))) ∧
      Comes (.instanceCount "web" "v1") (Message.encode [⟨1, "instances", .int 0xFFFFFFFF⟩])
        (.ok (.count 0xFFFFFFFF)) := by
  obtain ⟨hread, hrefused, hcounted⟩ := replies_read_back
  refine ⟨?_, ?_, ?_⟩
  · have hspells : Message.Spells [⟨1, "module", .names ["web", "worker"]⟩]
        (Wire.write [(7, .varint 300), (1, .delimited (Utf8.encode "web")),
          (9, .fixed32 [0, 0, 0, 1]), (1, .delimited (Utf8.encode "worker"))]) := by
      have hnumber : 300 < UInt64.size := by decide
      have hweb : (Utf8.encode "web").length < UInt64.size := by decide
      have hworker : (Utf8.encode "worker").length < UInt64.size := by decide
      refine Message.write_spells (List.forall_mem_singleton.2 rfl) ?_
      simp [Wire.IsNumber, Wire.depthLimit, Wire.Payload.Fits, hnumber, hweb, hworker]
    obtain ⟨outcome, hcomes, htells⟩ := hread .listModules _ _ rfl (by simp [Datum.InRange]) hspells
    cases htells
    exact hcomes
  · refine hrefused .listModules _ fun h => ?_
    obtain ⟨m, hm⟩ := (Message.exists_decode?_iff (reply_numbers_nodup .listModules)).2 h
    have hnone : Message.decode? .getModulesResponse [0x0A, 3, 0x77] = none := by decide
    cases hnone.symm.trans hm
  · have hstorable : (Backend.Call.setInstanceCount "web" "v1" 0xFFFFFFFF).Storable := by
      unfold Backend.Call.Storable
      decide
    obtain ⟨asked, hasked, hasks⟩ := read?_encode hstorable
    obtain ⟨instances, hread, hcomes⟩ :=
      hcounted "web" "v1" 0xFFFFFFFF _ _ hstorable (sends_iff.2 ⟨rfl, rfl⟩)
    cases hasked.symm.trans hread
    cases hasks with
    | setInstances hcount =>
      subst hcount
      refine hcomes _ (Message.encode_spells ?_)
      constructor <;> simp [Wire.IsNumber, Message.numbers, Datum.InRange, Datum.texts]

end ControlPlane.Legacy
