/-
Statuses of failed calls. The metadata of a status tells an application code if
it is text and the text is a number of 32 bits (`Status.Tells`). A code that is
told is what an operation goes by, whatever the code of the status is; metadata
that tells none is as good as absent, so no number is made up from what cannot
be read.
-/
import ControlPlane.Proofs.Deadline
import ControlPlane.Proofs.Decimal
import ControlPlane.Proofs.Requests

namespace ControlPlane

open Dialogue

namespace Legacy.Status

/-! ## Metadata -/

/-- The metadata tells this code: it is printable ASCII and tabs, and but for
blanks around it a number of 32 bits in digits, which a sign may stand in front
of. -/
def Tells (s : Status) (code : Int) : Prop :=
  ∃ bytes core, s.applicationError = some bytes ∧
    (∀ b ∈ bytes, b = 0x09 ∨ 0x20 ≤ b ∧ b ≤ 0x7E) ∧ Text.Padded core (chars bytes) ∧
    Decimal.Signed core code ∧ -0x80000000 ≤ code ∧ code ≤ 0x7FFFFFFF

theorem all_isTextByte_iff {bytes : Bytes} :
    bytes.all isTextByte = true ↔ ∀ b ∈ bytes, b = 0x09 ∨ 0x20 ≤ b ∧ b ≤ 0x7E := by
  rw [List.all_eq_true]
  refine forall₂_congr fun b _ => ?_
  simp [isTextByte, or_comm]

theorem applicationCode?_eq_some_iff {bytes : Bytes} {code : Int} :
    applicationCode? bytes = some code ↔
      (∀ b ∈ bytes, b = 0x09 ∨ 0x20 ≤ b ∧ b ≤ 0x7E) ∧
        (∃ core, Text.Padded core (chars bytes) ∧ Decimal.Signed core code) ∧
        -0x80000000 ≤ code ∧ code ≤ 0x7FFFFFFF := by
  have hcore : (∃ core, Text.Padded core (chars bytes) ∧ Decimal.Signed core code) ↔
      Decimal.Signed (Text.trimChars (chars bytes)) code :=
    Text.exists_padded_iff fun _ => Decimal.Signed.not_blank
  rw [hcore, ← all_isTextByte_iff, applicationCode?]
  by_cases htext : bytes.all isTextByte = true
  · simp [htext, Decimal.signed32?, Decimal.signed?_eq_some_iff]
  · simp [htext]

/-- The metadata is read as the code that it tells. -/
theorem tells_iff {s : Status} {code : Int} :
    s.Tells code ↔ s.applicationError.bind applicationCode? = some code := by
  simp only [Option.bind_eq_some_iff, applicationCode?_eq_some_iff]
  constructor
  · intro ⟨bytes, core, hbytes, htext, hpadded, hcore, hrange⟩
    exact ⟨bytes, hbytes, htext, ⟨core, hpadded, hcore⟩, hrange⟩
  · intro ⟨bytes, hbytes, htext, ⟨core, hpadded, hcore⟩, hrange⟩
    exact ⟨bytes, core, hbytes, htext, hpadded, hcore, hrange⟩

theorem fault_of_tells {s : Status} {code : Int} (h : s.Tells code) :
    s.fault = .application code s.message := by
  rw [fault, tells_iff.1 h]

theorem fault_of_not_tells {s : Status} (h : ∀ code, ¬ s.Tells code) :
    s.fault = .rpc s.code s.message := by
  have hnone : s.applicationError.bind applicationCode? = none :=
    Option.eq_none_iff_forall_ne_some.2 fun code hcode => h code (tells_iff.2 hcode)
  rw [fault, hnone]

theorem fault_eq_application_iff {s : Status} {code : Int} {detail : String} :
    s.fault = .application code detail ↔ s.Tells code ∧ detail = s.message := by
  by_cases htells : ∃ code, s.Tells code
  · obtain ⟨told, htold⟩ := htells
    have hunique : s.Tells code ↔ code = told := by
      rw [tells_iff, tells_iff.1 htold, Option.some.injEq, eq_comm]
    rw [fault_of_tells htold, hunique]
    simp [eq_comm]
  · have hnone : ∀ code, ¬ s.Tells code := not_exists.1 htells
    simp [fault_of_not_tells hnone, hnone]

end Legacy.Status

/-! ## Operations -/

namespace Operation

/-- How an operation ends whose call fails with this status. -/
def failed (op : Operation) (s : Legacy.Status) : Except Failure Answer :=
  op.settled (.error (op.method.policy.classify s.fault))

theorem settled_eq_error {op : Operation} {failure failure' : Failure}
    (h : op.settled (.error failure) = .error failure') : failure' = failure := by
  by_cases hkind : failure.kind = .unexpectedState
  · obtain ⟨detail, rfl⟩ : ∃ detail, failure = .unexpectedState detail := by
      cases failure <;> cases hkind
      exact ⟨_, rfl⟩
    by_cases hstatus : op.status? = none
    · rw [settled_of_ne (.inl hstatus)] at h
      exact (Except.error.inj h).symm
    · rw [settled_unexpectedState hstatus] at h
      cases h
  · rw [settled, settle_eq_error hkind] at h
    exact (Except.error.inj h).symm

/-- A code that metadata tells is what the operation goes by. -/
theorem failed_of_tells {op : Operation} {s : Legacy.Status} {code : Int} (h : s.Tells code) :
    op.failed s =
      op.settled (.error (op.method.policy.classify (.application code s.message))) := by
  rw [failed, Legacy.Status.fault_of_tells h]

/-- Where it tells none, the code of the status is. -/
theorem failed_of_not_tells {op : Operation} {s : Legacy.Status} (h : ∀ code, ¬ s.Tells code) :
    op.failed s = .error (if s.code.isTransient then .transient s.message
      else .generic s.message (some (.rpc s.code.number))) := by
  have hkind : ((Fault.rpc s.code s.message).classify .module).kind ≠ .unexpectedState :=
    (Fault.classify_classified .module _).kind_ne
  rw [failed, Legacy.Status.fault_of_not_tells h]
  exact (settle_eq_error hkind).trans rfl

end Operation

namespace Legacy

/-- A failure that is classified has no code but the one of its fault. -/
theorem Policy.classify_code {policy : Policy} {fault : Fault} {code : Failure.Code}
    (h : (policy.classify fault).code = some code) : fault.code? = some code := by
  have hclassified {fault : Fault} (h : (fault.classify .module).code = some code) :
      fault.code? = some code := by
    have hkind : (fault.classify .module).kind = .generic := by
      cases hfailure : fault.classify .module <;> rw [hfailure] at h <;> first | rfl | cases h
    rw [← (Fault.classify_classified .module fault).code hkind, h]
  cases fault with
  | application number detail =>
    simp only [classify] at h
    split at h
    · next known _ =>
      split_ifs at h
      · cases known <;> cases h
      · exact hclassified h
    · exact hclassified h
  | _ => exact hclassified h

/-- The call comes to its end over the network with this status. -/
def FailsWith (endpoint : Endpoint) (network : List Request → Network) (call : Backend.Call)
    (s : Status) : Prop :=
  (network []).call endpoint
    (.of call.method.name call.message.encode call.method.caller) = .failed s

/-- An operation whose call fails with a status ends as the status says. -/
theorem ends_failed {endpoint : Endpoint} {network : List Request → Network} {identity : Identity}
    {op : Operation} {call : Backend.Call} {s : Status} (hcall : op.call identity = .ok call)
    (hfails : FailsWith endpoint network call s) :
    Ends ((Access.legacy endpoint).server network)
      (((Access.legacy endpoint).client identity).perform op).run
      [call.method.request call.message] (op.failed s) := by
  have hreply : (Access.legacy endpoint).server network [] (call.method.request call.message) =
      .error s.fault := by
    change ((network []).call endpoint _).reply = _
    rw [hfails]
    rfl
  have hends := perform_ends ((Access.legacy endpoint).server network) call
  rw [hreply] at hends
  rw [Operation.failed, ← Operation.call_method hcall]
  exact (Access.legacy endpoint).ends_of_call hcall hends

/-- **The code in the metadata counts if it can be read**, and no other does. A
failed call is a fault with the application code that its metadata tells, and
with the code of its status if that tells none. So an operation hangs on the
code of a status only then, and tells of no application code but the one it was
told. -/
theorem application_code_counts :
    (∀ (s : Status) code detail,
      (s.fault = .application code detail ↔ s.Tells code ∧ detail = s.message)) ∧
    (∀ s : Status, (∀ code, ¬ s.Tells code) → s.fault = .rpc s.code s.message) ∧
    ∀ endpoint network identity (op : Operation) call s, op.call identity = .ok call →
      FailsWith endpoint network call s →
        Ends ((Access.legacy endpoint).server network)
          (((Access.legacy endpoint).client identity).perform op).run
          [call.method.request call.message] (op.failed s) ∧
        (∀ code, s.Tells code → op.failed s =
          op.settled (.error (op.method.policy.classify (.application code s.message)))) ∧
        ((∃ code, s.Tells code) → ∀ other, op.failed { s with code := other } = op.failed s) ∧
        ((∀ code, ¬ s.Tells code) →
          (∀ metadata, metadata.lookup applicationErrorKey = none →
            op.failed s = op.failed { s with metadata := metadata }) ∧
          op.failed s = .error (if s.code.isTransient then .transient s.message
            else .generic s.message (some (.rpc s.code.number)))) ∧
        ∀ failure code, op.failed s = .error failure →
          failure.code = some (.application code) → s.Tells code := by
  refine ⟨fun s code detail => s.fault_eq_application_iff, fun s => s.fault_of_not_tells, ?_⟩
  intro endpoint network identity op call s hcall hfails
  refine ⟨ends_failed hcall hfails, fun code => Operation.failed_of_tells, ?_, ?_, ?_⟩
  · intro ⟨code, htells⟩ other
    have hother : Status.Tells { s with code := other } code := htells
    rw [Operation.failed_of_tells htells, Operation.failed_of_tells hother]
  · intro hnone
    refine ⟨fun metadata habsent => ?_, Operation.failed_of_not_tells hnone⟩
    have hnone' : ∀ code, ¬ Status.Tells { s with metadata := metadata } code := by
      intro code ⟨bytes, _, hbytes, _⟩
      cases habsent.symm.trans hbytes
    rw [Operation.failed_of_not_tells hnone, Operation.failed_of_not_tells hnone']
  · intro failure code hfailed hcode
    rw [Operation.settled_eq_error hfailed] at hcode
    have hfault := Policy.classify_code hcode
    by_cases htells : ∃ told, s.Tells told
    · obtain ⟨told, htold⟩ := htells
      rw [s.fault_of_tells htold] at hfault
      cases hfault
      exact htold
    · rw [s.fault_of_not_tells (not_exists.1 htells)] at hfault
      cases hfault

/-- A service that is unavailable says with a code that an instance is not there;
with one of more than 32 bits it only says that it is unavailable, whatever comes
after it. -/
theorem application_code_counts_three :
    let endpoint : Endpoint := ⟨"http://127.0.0.1:50051", 5000, 1500⟩
    let op : Operation := .hostname (some "api") none (some "7")
    let status (text : String) : Status :=
    ⟨.unavailable, "down",
      [("retry-after", []), (applicationErrorKey, Utf8.encode text), (applicationErrorKey, [0x31])]⟩
    let network (text : String) (_ : List Request) : Network :=
      ⟨fun _ => .expired, fun _ _ => .failed (status text)⟩
    let server (text : String) := (Access.legacy endpoint).server (network text)
    let run := (((Access.legacy endpoint).client .unknown).perform op).run
    (∃ made, Ends (server "\t+0003 ") run made (.error (.invalidInstances "down"))) ∧
    ∃ made, Ends (server "4294967299") run made (.error (.transient "down")) := by
  intro endpoint op status network server run
  have hcall : op.call .unknown = .ok (.hostname ⟨"api", .current none, some 7⟩) :=
    Operation.call_of_parseInstance? (by decide)
  obtain ⟨hfault, -, hends⟩ := application_code_counts
  have hthree : (status "\t+0003 ").Tells 3 := ((hfault _ 3 "down").1 (by decide)).1
  have hnone : ∀ code, ¬ (status "4294967299").Tells code := by
    have hrpc : (status "4294967299").fault = .rpc .unavailable "down" := by decide
    intro code htells
    rw [(hfault _ code _).2 ⟨htells, rfl⟩] at hrpc
    cases hrpc
  obtain ⟨hended, htold, -, -, -⟩ :=
    hends endpoint (network "\t+0003 ") .unknown op _ _ hcall rfl
  obtain ⟨hended', -, -, hunread, -⟩ :=
    hends endpoint (network "4294967299") .unknown op _ _ hcall rfl
  rw [htold 3 hthree] at hended
  rw [(hunread hnone).2] at hended'
  exact ⟨⟨_, hended⟩, ⟨_, hended'⟩⟩

end Legacy
end ControlPlane
