/-
The calls of the legacy service. Each call of its backend is one call of a
method, and comes to what the method's reply is read as.
-/
import ControlPlane.Proofs.Calls

namespace ControlPlane

open Dialogue

namespace Legacy

theorem Code.number_of_ofNumber? {n : Int} {code : Code} (h : ofNumber? n = some code) :
    n = code.number := by
  unfold ofNumber? at h
  split at h <;> cases h <;> rfl

namespace Policy

/-- To be in the wanted status already is told only by methods that allow for it. -/
theorem classify_kind {policy : Policy} {fault : Fault}
    (h : (policy.classify fault).kind = .unexpectedState) :
    (∃ detail, fault = .application 5 detail) ∧
      (.unexpectedState ∈ policy.ignored ∨ .unexpectedState ∈ policy.expected) := by
  cases fault with
  | application code detail =>
    simp only [classify] at h
    cases hknown : Code.ofNumber? code with
    | none => rw [hknown] at h; cases h
    | some known =>
      simp only [hknown] at h
      split_ifs at h with hmem
      · cases known with
        | unexpectedState => exact ⟨⟨detail, by rw [Code.number_of_ofNumber? hknown]; rfl⟩, hmem⟩
        | _ => cases h
      · cases h
  | _ =>
    simp only [classify] at h
    exact absurd h (Fault.classify_classified .module _).kind_ne

/-- A code that a method does not expect is reported as it came. -/
theorem classify_unexpected {policy : Policy} {code : Code}
    (h : ¬ (code ∈ policy.ignored ∨ code ∈ policy.expected)) (detail : String) :
    policy.classify (.application code.number detail) =
      .generic detail (some (.application code.number)) := by
  simp only [classify, Code.ofNumber?_number, h, if_false]
  rfl

end Policy

namespace Method

/-- What a reply to the method comes to. -/
def outcome (method : Method) : Reply → Except Failure Message
  | .error fault => .error (method.policy.classify fault)
  | .ok body =>
    match Message.decode? method.reply body with
    | some reply => .ok reply
    | none => .error (method.policy.classify undecodable)

theorem outcome_eq_error {method : Method} {reply : Reply} {failure : Failure}
    (h : method.outcome reply = .error failure) : ∃ fault,
      failure = method.policy.classify fault ∧ (reply = .error fault ∨ fault = undecodable) := by
  unfold outcome at h
  split at h
  · next fault =>
    cases h
    exact ⟨fault, rfl, .inl rfl⟩
  · split at h <;> cases h
    exact ⟨undecodable, rfl, .inr rfl⟩

/-- The method that moves a version to a status. -/
def change : ServingStatus → Method
  | .serving => startModule
  | .stopped => stopModule

def request (method : Method) (message : Message) : Request :=
  .call method.name message.encode method.caller

theorem call_ends (server : Server Request Reply) (method : Method) (message : Message) :
    Ends server (method.call message).run [method.request message]
      (method.outcome (server [] (method.request message))) := by
  refine ⟨[server [] (method.request message)], .ask .start rfl, fun more => ?_⟩
  generalize server [] (method.request message) = reply
  rcases reply with fault | body
  · rfl
  · rw [outcome]
    change (Except.mapError method.policy.classify <$>
      (match Message.decode? method.reply body with
        | some reply => (pure reply : ExceptT Fault Exchange Message)
        | none => throw undecodable).run) more = _
    cases Message.decode? method.reply body <;> rfl

/-- A call of the method, and the answer that its reply is read as. -/
theorem call_answer_ends {α : Type} (server : Server Request Reply) (method : Method)
    (message : Message) (read : Message → Except Failure α) (answer : α → Answer) :
    Ends server
      (answer <$> (method.call message >>= fun reply => ExceptT.mk (pure (read reply)))).run
      [method.request message]
      ((method.outcome (server [] (method.request message))).bind fun reply =>
        (read reply).map answer) := by
  have hcall := method.call_ends server message
  cases houtcome : method.outcome (server [] (method.request message)) with
  | error failure =>
    rw [houtcome] at hcall
    exact hcall.run_bind_error.run_map answer
  | ok reply =>
    rw [houtcome] at hcall
    rw [← List.append_nil [method.request message]]
    exact (hcall.run_bind (Ends.pure _ _)).run_map answer

end Method
end Legacy

namespace Backend.Call

/-- The method of the legacy service that is called. -/
def method : Backend.Call → Legacy.Method
  | listModules => .getModules
  | listVersions _ => .getVersions
  | defaultVersion _ => .getDefaultVersion
  | instanceCount _ _ => .getNumInstances
  | setInstanceCount _ _ _ => .setNumInstances
  | setServingStatus _ _ status => .change status
  | hostname _ => .getHostname

/-- The message it is called with. -/
def message : Backend.Call → Legacy.Message
  | listModules => .getModulesRequest
  | listVersions module => .getVersionsRequest module
  | defaultVersion module => .getDefaultVersionRequest module
  | instanceCount module version => .getNumInstancesRequest module version
  | setInstanceCount module version count => .setNumInstancesRequest module version count.toNat
  | setServingStatus module version .serving => .startModuleRequest module version
  | setServingStatus module version .stopped => .stopModuleRequest module version
  | hostname q => .getHostnameRequest q.module q.version.explicit?
    (q.index.map HostnameQuery.segment)

/-- What the message of the reply is read as. -/
def read : Backend.Call → Legacy.Message → Except Failure Answer
  | listModules, reply | listVersions _, reply => .ok (.names (reply.names 1))
  | defaultVersion _, reply | hostname _, reply => .ok (.text (reply.text 1))
  | instanceCount module version, reply =>
    (Legacy.count module version (reply.int 1)).map .count
  | setInstanceCount _ _ _, _ | setServingStatus _ _ _, _ => .ok .done

end Backend.Call

namespace Legacy

/-- Of what can be read, only a count may be of no use. -/
theorem read_eq_error {call : Backend.Call} {reply : Message} {failure : Failure}
    (h : call.read reply = .error failure) : failure.kind = .generic := by
  cases call with
  | instanceCount module version =>
    simp only [Backend.Call.read, count] at h
    split at h <;> cases h
    rfl
  | _ => cases h

open Method in
/-- A call of the backend is one call of its method. -/
theorem perform_ends (server : Server Request Reply) (call : Backend.Call) :
    Ends server (backend.perform call).run [call.method.request call.message]
      ((call.method.outcome (server [] (call.method.request call.message))).bind call.read) := by
  cases call with
  | listModules => exact call_answer_ends server .getModules _ (fun reply => .ok (reply.names 1)) _
  | listVersions =>
    exact call_answer_ends server .getVersions _ (fun reply => .ok (reply.names 1)) _
  | defaultVersion =>
    exact call_answer_ends server .getDefaultVersion _ (fun reply => .ok (reply.text 1)) _
  | instanceCount module version =>
    exact call_answer_ends server .getNumInstances _
      (fun reply => count module version (reply.int 1)) _
  | setInstanceCount => exact call_answer_ends server .setNumInstances _ (fun _ => .ok ()) _
  | setServingStatus module version status =>
    cases status with
    | serving => exact call_answer_ends server .startModule _ (fun _ => .ok ()) _
    | stopped => exact call_answer_ends server .stopModule _ (fun _ => .ok ()) _
  | hostname => exact call_answer_ends server .getHostname _ (fun reply => .ok (reply.text 1)) _

end Legacy

/-- An operation ends as its call does, once that is settled. -/
theorem Access.ends_of_call (a : Access) {identity : Identity} {op : Operation}
    {call : Backend.Call} (hcall : op.call identity = .ok call) {server : Server Request Reply}
    {made : List Request} {outcome : Except Failure Answer}
    (h : Ends server (a.backend.perform call).run made outcome) :
    Ends server ((a.client identity).perform op).run made (op.settled outcome) := by
  have hclient : op.call (a.client identity).identity = .ok call := hcall
  rw [Client.perform_run, Client.oneCall, hclient]
  exact h.map op.settled

end ControlPlane
