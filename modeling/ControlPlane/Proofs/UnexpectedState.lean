/-
Versions that are in the wanted status already. The legacy service tells so by
a code of its own, which the operations that change a status take for success;
no other operation takes the code at its word, and the admin API has no such
reply. So no caller is told of it, whether it waits for an operation or has it
done in the background.
-/
import ControlPlane.Proofs.FirstFailure
import ControlPlane.Proofs.Methods
import ControlPlane.Proofs.Pending

namespace ControlPlane

open Dialogue Exchange

variable {server : Server Request Reply} {made : List Request} {failure : Failure}

theorem Fault.code?_eq_application {fault : Fault} {code : Int}
    (h : fault.code? = some (.application code)) : ∃ detail, fault = .application code detail := by
  cases fault <;> cases h
  exact ⟨_, rfl⟩

/-! ## Operations -/

namespace Operation

variable {op : Operation} {status : ServingStatus}

theorem call_of_status {i : Identity} {module version : Option String}
    (hstatus : op.status? = some status) (htarget : op.target? = some (module, version)) :
    op.call i = i.callFor module version (.setServingStatus · · status) := by
  cases op <;> cases hstatus <;> cases htarget <;> rfl

theorem method_of_status (h : op.status? = some status) : op.method = .change status := by
  cases op <;> cases h <;> rfl

theorem missing_of_status (h : op.status? = some status) : op.missing = .version := by
  cases op <;> cases h <;> rfl

theorem call_method {i : Identity} {call : Backend.Call} (h : op.call i = .ok call) :
    call.method = op.method := by
  cases op with
  | instanceCount | setInstanceCount | startVersion | stopVersion =>
    simp only [Operation.call, Identity.callFor] at h
    split at h <;> cases h
    rfl
  | hostname =>
    simp only [Operation.call, Except.map] at h
    split at h <;> cases h
    rfl
  | listModules | listVersions | defaultVersion => cases h; rfl

/-- Only the operations that change a status expect it to be as wanted. -/
theorem method_unexpected (h : op.status? = none) :
    ¬ (Legacy.Code.unexpectedState ∈ op.method.policy.ignored ∨
      Legacy.Code.unexpectedState ∈ op.method.policy.expected) := by
  cases op with
  | startVersion | stopVersion => cases h
  | _ =>
    simp only [method]
    decide

/-- An operation that changes a status succeeds, or fails for something else. -/
theorem settled_kind_ne (h : op.status? ≠ none) {outcome : Except Failure Answer}
    (hsettled : op.settled outcome = .error failure) : failure.kind ≠ .unexpectedState := by
  intro hkind
  by_cases hstate : ∃ detail, outcome = .error (.unexpectedState detail)
  · obtain ⟨detail, rfl⟩ := hstate
    cases (Operation.settled_unexpectedState h detail).symm.trans hsettled
  · rw [Operation.settled_of_ne (.inr (not_exists.1 hstate))] at hsettled
    subst hsettled
    cases failure with
    | unexpectedState detail => exact hstate ⟨detail, rfl⟩
    | _ => cases hkind

end Operation

/-! ## Backends -/

namespace Legacy

/-- A call of a method that expects no such code never finds a version as wanted. -/
theorem perform_kind_ne {call : Backend.Call}
    (hpolicy : ¬ (Code.unexpectedState ∈ call.method.policy.ignored ∨
      Code.unexpectedState ∈ call.method.policy.expected))
    (h : Ends server (backend.perform call).run made (.error failure)) :
    failure.kind ≠ .unexpectedState := by
  obtain ⟨-, houtcome⟩ := h.unique (perform_ends server call)
  cases hreply : call.method.outcome (server [] (call.method.request call.message)) with
  | error refused =>
    rw [hreply] at houtcome
    cases houtcome
    obtain ⟨fault, rfl, -⟩ := Method.outcome_eq_error hreply
    exact fun hkind => hpolicy (Policy.classify_kind hkind).2
  | ok reply =>
    rw [hreply] at houtcome
    rw [read_eq_error houtcome.symm]
    nofun

end Legacy

namespace Admin

theorem Rejects.kind_ne {project : String} {call : Backend.Call}
    (h : Rejects project server made call failure) : failure.kind ≠ .unexpectedState := by
  cases h with
  | unaddressed _ h => cases h <;> rintro ⟨⟩
  | _ => rintro ⟨⟩

theorem perform_kind_ne {project : String} {call : Backend.Call}
    (h : Ends server ((backend project).perform call).run made (.error failure)) :
    failure.kind ≠ .unexpectedState := by
  rcases flawed_or_rejects h with ⟨before, request, fault, -, -, rfl⟩ | ⟨-, hrejects⟩
  · exact (Fault.classify_classified _ _).kind_ne
  · exact hrejects.kind_ne

/-- A change of status is one request. -/
theorem setServingStatus_ends (server : Server Request Reply) (project module version : String)
    (status : ServingStatus) :
    ∃ request, Ends server ((backend project).perform (.setServingStatus module version status)).run
      [request] ((patched (server [] request)).map fun _ => .done) := by
  obtain ⟨caller, hpatch⟩ : ∃ caller, setServingStatus project module version status =
      patch project module version (.servingStatus status) caller := ⟨_, rfl⟩
  have hends := patch_ends server project module version (.servingStatus status) caller
  simp only [Backend.perform, backend, hpatch]
  exact ⟨_, hends.run_map _⟩

end Admin

namespace Access

/-- An operation that has ended has settled what its call came to. -/
theorem settled_of_ends {a : Access} {op : Operation} {call : Backend.Call}
    {result : Except Failure Answer}
    (h : Ends server (op.settled <$> (a.backend.perform call).run) made result) :
    ∃ outcome, Ends server (a.backend.perform call).run made outcome ∧
      op.settled outcome = result := by
  cases a with
  | legacy =>
    have hends := Legacy.perform_ends server call
    obtain ⟨rfl, rfl⟩ := h.unique (hends.map op.settled)
    exact ⟨_, hends, rfl⟩
  | admin project => exact h.of_map (Admin.perform_failsAtFlaw project call).steady

/-- No operation tells that a version is in the wanted status. -/
theorem perform_kind_ne (a : Access) (identity : Identity) (op : Operation)
    (h : Ends server ((a.client identity).perform op).run made (.error failure)) :
    failure.kind ≠ .unexpectedState := by
  rw [Client.perform_run, Client.oneCall] at h
  cases hcall : op.call (a.client identity).identity with
  | error refused =>
    rw [hcall] at h
    obtain ⟨-, h⟩ := h.unique (Ends.pure _ _)
    cases h
    cases Operation.call_eq_error.1 hcall <;> rintro ⟨⟩
  | ok call =>
    rw [hcall] at h
    obtain ⟨outcome, hends, hsettled⟩ := settled_of_ends h
    -- Only a change of status can come to it, and to settle one is to absorb it.
    by_cases hstatus : op.status? = none
    · rw [Operation.settled_of_ne (.inl hstatus)] at hsettled
      subst hsettled
      cases a with
      | legacy =>
        refine Legacy.perform_kind_ne ?_ hends
        rw [Operation.call_method hcall]
        exact Operation.method_unexpected hstatus
      | admin => exact Admin.perform_kind_ne hends
    · exact Operation.settled_kind_ne hstatus hsettled

/-! ## Changes of a status -/

/-- Whether a change of status takes a reply for success. The legacy service
has to say what can be read, or that the version is as wanted; what the admin
API says is not looked into. -/
def accepts : Access → ServingStatus → Reply → Bool
  | legacy _, status, .ok body =>
    (Legacy.Message.decode? (Legacy.Method.change status).reply body).isSome
  | legacy _, _, .error fault => fault.code? = some (.application 5)
  | admin _ _, _, .ok _ => true
  | admin _ _, _, .error _ => false

/-- The fault of a reply that is not taken for success. -/
def refusal : Reply → Fault
  | .error fault => fault
  | .ok _ => Legacy.Method.undecodable

/-- How a change of status ends, by the reply to its request. -/
def changed (a : Access) (op : Operation) (status : ServingStatus) (reply : Reply) :
    Except Failure Answer :=
  if a.accepts status reply then .ok .done else .error (a.classify op (refusal reply))

theorem settled_legacy {op : Operation} {status : ServingStatus} (h : op.status? = some status)
    (endpoint : Legacy.Endpoint) (reply : Reply) :
    op.settled (((Legacy.Method.change status).outcome reply).bind fun _ => .ok .done) =
      (legacy endpoint).changed op status reply := by
  rcases reply with fault | body
  -- Code 5 is the one fault that the methods of a change expect to mean this.
  · by_cases hcode : fault.code? = some (.application 5)
    · obtain ⟨detail, rfl⟩ := Fault.code?_eq_application hcode
      have hkind : (Legacy.Method.change status).outcome (.error (.application 5 detail)) =
          .error (.unexpectedState detail) := by cases status <;> rfl
      rw [hkind]
      exact Operation.settled_unexpectedState (by simp [h]) detail
    · have hkind :
          ((Legacy.Method.change status).policy.classify fault).kind ≠ .unexpectedState := by
        intro hkind
        obtain ⟨⟨detail, rfl⟩, -⟩ := Legacy.Policy.classify_kind hkind
        exact hcode rfl
      simp only [changed, accepts, hcode, decide_false, classify, Operation.method_of_status h]
      exact Operation.settle_eq_error hkind
  · rw [Legacy.Method.outcome, changed, accepts, classify, Operation.method_of_status h]
    cases Legacy.Message.decode? (Legacy.Method.change status).reply body with
    | some reply => rfl
    | none => exact Operation.settle_eq_error (by cases status <;> rintro ⟨⟩)

theorem settled_admin {op : Operation} {status : ServingStatus} (h : op.status? = some status)
    (project : String) (endpoint : Admin.Endpoint) (reply : Reply) :
    op.settled ((Admin.patched reply).map fun _ => .done) =
      (admin project endpoint).changed op status reply := by
  rcases reply with fault | body
  · rw [changed, classify, Operation.missing_of_status h]
    exact Operation.settle_eq_error (Fault.classify_classified _ fault).kind_ne
  · rfl

/-- A change of status is one request, and ends as the reply to it says. -/
theorem change_ends (a : Access) {op : Operation} {status : ServingStatus}
    (h : op.status? = some status) (server : Server Request Reply) (module version : String) :
    ∃ request, Ends server
      (op.settled <$> (a.backend.perform (.setServingStatus module version status)).run) [request]
      (a.changed op status (server [] request)) := by
  cases a with
  | legacy endpoint =>
    have hends := (Legacy.perform_ends server (.setServingStatus module version status)).map
      op.settled
    exact ⟨_, settled_legacy h endpoint _ ▸ hends⟩
  | admin project endpoint =>
    obtain ⟨request, hends⟩ := Admin.setServingStatus_ends server project module version status
    exact ⟨request, settled_admin h project endpoint _ ▸ hends.map op.settled⟩

end Access

/-! ## Operations in the background -/

/-- How a task that runs the exchange may end. -/
inductive TaskEnds {α : Type} (server : Server Request Reply) (x : ExceptT Failure Exchange α) :
    TaskOutcome α → Prop
  | returned {made result} : Ends server x.run made result → TaskEnds server x (.returned result)
  | panicked : TaskEnds server x .panicked
  | cancelled : TaskEnds server x .cancelled

theorem TaskEnds.kind_ne {a : Access} {identity : Identity} {op : Operation}
    {outcome : TaskOutcome Answer} (h : TaskEnds server ((a.client identity).perform op) outcome)
    {name : String} (hfails : outcome.result name = .error failure) :
    failure.kind ≠ .unexpectedState := by
  cases h with
  | returned h =>
    cases hfails
    exact a.perform_kind_ne identity op h
  | panicked | cancelled =>
    cases hfails
    rintro ⟨⟩

/-- What it comes to that a version may be in the wanted status already. -/
structure Access.AbsorbsUnexpectedState (a : Access) (identity : Identity) (op : Operation)
    (server : Server Request Reply) : Prop where
  /-- No caller is told of it. -/
  waited : ∀ ⦃made failure⦄,
    Ends server ((a.client identity).perform op).run made (.error failure) →
    failure.kind ≠ .unexpectedState
  /-- Nor is the holder of a pending call, whatever became of its task. -/
  submitted : ∀ ⦃call failure⦄,
    PendingCall.Course op.name (TaskEnds server ((a.client identity).perform op)) call →
    call.result? = some (.error failure) → failure.kind ≠ .unexpectedState
  /-- To change the status of a version, the version has to be known. -/
  unversioned : ∀ ⦃status module version⦄, op.status? = some status →
    op.target? = some (module, version) → identity.versionFor version = none →
    Ends server ((a.client identity).perform op).run []
      (.error (.unknownVersion (identity.moduleFor module)))
  /-- Then there is one request, and the reply to it decides. -/
  changes : ∀ ⦃status module version⦄, op.status? = some status →
    op.target? = some (module, version) → identity.versionFor version ≠ none →
    ∃ request, Ends server ((a.client identity).perform op).run [request]
      (a.changed op status (server [] request))
  /-- An operation that changes no status takes the code of the legacy service
  for any other. -/
  other : ∀ ⦃endpoint made received request detail⦄, a = .legacy endpoint → op.status? = none →
    Reaches server ((a.client identity).perform op).run made received →
    ((a.client identity).perform op).run received = .error request →
    server made request = .error (.application 5 detail) →
    Ends server ((a.client identity).perform op).run (made ++ [request])
      (.error (.generic detail (some (.application 5))))

/-- **Finding the wanted status is a success.** No operation, whether it is
waited for or submitted, tells its caller that a version is in the wanted
status, whatever a service replies. A change of status succeeds if its one
reply can be read or, over the legacy service, is code 5, and otherwise fails
as the fault is classified; to other operations code 5 is one that says
nothing. -/
theorem unexpected_state_absorbed (a : Access) (identity : Identity) (op : Operation)
    (server : Server Request Reply) : a.AbsorbsUnexpectedState identity op server where
  waited _ _ h := a.perform_kind_ne identity op h
  submitted call failure hcourse hresult := by
    obtain ⟨outcome, hends, hfails⟩ := hcourse.result hresult
    exact hends.kind_ne hfails.symm
  unversioned status module version hstatus htarget hversion := by
    have hcall : op.call identity = .error (.unknownVersion (identity.moduleFor module)) := by
      rw [Operation.call_of_status hstatus htarget, Identity.callFor, hversion]
    rw [Client.perform_run, Client.oneCall, Access.client, hcall]
    exact Ends.pure _ _
  changes status module version hstatus htarget hversion := by
    obtain ⟨name, hname⟩ := Option.ne_none_iff_exists'.1 hversion
    have hcall : op.call identity =
        .ok (.setServingStatus (identity.moduleFor module) name status) := by
      rw [Operation.call_of_status hstatus htarget, Identity.callFor, hname]
    rw [Client.perform_run, Client.oneCall, Access.client, hcall]
    exact a.change_ends hstatus server (identity.moduleFor module) name
  other := by
    rintro endpoint made received request detail rfl hstatus hr hask hreply
    have hends := (Access.perform_stopsAt (.legacy endpoint) identity op).ends hr hask hreply
    have hclassify : (Access.legacy endpoint).classify op (.application 5 detail) =
        .generic detail (some (.application 5)) :=
      Legacy.Policy.classify_unexpected (Operation.method_unexpected hstatus) detail
    rwa [hclassify, Operation.settle_eq_error (by rintro ⟨⟩)] at hends

end ControlPlane
