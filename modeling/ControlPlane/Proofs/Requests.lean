/-
The requests of an operation, at any moment of its run: the one that is waiting
for its reply included, however the replies fall. Each carries the tag of the
operation. An operation is one call of the legacy service; over the admin API
it reads, or it changes one version by one request. A failure is the last that
is heard of it.
-/
import ControlPlane.Proofs.UnexpectedState

namespace ControlPlane

/-! ## The requests of a dialogue -/

namespace Dialogue

variable {Req Rep α β : Type} {d : Dialogue Req Rep α} {request : Req}

/-- The request that is waiting for its reply, after these replies. -/
def pending (d : Dialogue Req Rep α) (replies : List Rep) : List Req :=
  match d replies with
  | .error request => [request]
  | .ok _ => []

theorem requests_nil (d : Dialogue Req Rep α) : requests d [] = pending d [] := by
  simp only [requests, pending, List.length_nil, Nat.zero_add, List.range_one, List.take_nil]
  cases d [] <;> rfl

/-- One more reply leads to one more request, or to the outcome. -/
theorem requests_concat (d : Dialogue Req Rep α) (replies : List Rep) (reply : Rep) :
    requests d (replies ++ [reply]) = requests d replies ++ pending d (replies ++ [reply]) := by
  have hlength : (replies ++ [reply]).length = replies.length + 1 := by simp
  have hstretch (count : Nat) (h : count ∈ List.range (replies.length + 1)) :
      (replies ++ [reply]).take count = replies.take count :=
    List.take_append_of_le_length (Nat.le_of_lt_succ (List.mem_range.1 h))
  have hwhole : (replies ++ [reply]).take (replies.length + 1) = replies ++ [reply] := by
    rw [← hlength, List.take_length]
  unfold requests
  rw [hlength, List.range_succ, List.filterMap_append]
  congr 1
  · exact List.filterMap_congr fun count h => by rw [hstretch count h]
  · rw [List.filterMap_cons, List.filterMap_nil, hwhole, pending]
    cases d (replies ++ [reply]) <;> rfl

theorem Asks.of_requests {P : Req → Prop} (h : Asks P d) (replies : List Rep) :
    ∀ request ∈ requests d replies, P request := by
  intro request hmem
  obtain ⟨count, -, hcount⟩ := List.mem_filterMap.1 hmem
  cases hask : d (replies.take count) with
  | error asked =>
    rw [hask] at hcount
    cases hcount
    exact h hask
  | ok p => rw [hask] at hcount; cases hcount

/-- Once a dialogue has come to its outcome no reply makes it go on. -/
theorem requests_append {before : List Rep}
    (h : ∀ reply after, ∃ p, d (before ++ reply :: after) = .ok p) (after : List Rep) :
    requests d (before ++ after) = requests d before := by
  induction after using List.reverseRecOn with
  | nil => rw [List.append_nil]
  | append_singleton after reply ih =>
    have hdone : ∃ p, d (before ++ (after ++ [reply])) = .ok p := by
      cases after with
      | nil => exact h reply []
      | cons first after => exact h first (after ++ [reply])
    obtain ⟨p, hp⟩ := hdone
    rw [← List.append_assoc, requests_concat, ih, List.append_assoc]
    simp only [pending, hp, List.append_nil]

theorem requests_pure (a : α) (replies : List Rep) :
    requests (pure a : Dialogue Req Rep α) replies = [] := by
  rw [← List.nil_append replies, requests_append fun reply after => ⟨_, rfl⟩, requests_nil]
  rfl

theorem Reaches.length_eq {server : Server Req Rep} {made received}
    (h : Reaches server d made received) : received.length = made.length := by
  induction h with
  | start => rfl
  | ask _ _ ih => simp [ih]

/-- A dialogue of one request has its outcome at the first reply. -/
theorem Ends.first_reply {server : Server Req Rep} {a : α} (h : Ends server d [request] a) :
    ∀ more, d (server [] request :: more) = .ok (a, more) := by
  obtain ⟨received, hr, hmore⟩ := h
  generalize hmade : [request] = made at hr
  cases hr with
  | start => cases hmade
  | @ask made received asked hr _ =>
    obtain ⟨hnil, hlast⟩ : made = [] ∧ asked = request := by
      simpa [eq_comm] using List.singleton_eq_append_iff.1 hmade
    subst hnil hlast
    have hreceived : received = [] := List.length_eq_zero_iff.1 hr.length_eq
    subst hreceived
    exact hmore

end Dialogue

open Dialogue Exchange

namespace Exchange

variable {α : Type} {d : Exchange α} {request : Request}

/-- An exchange that ends with one request, whoever answers, makes that one. -/
theorem requests_single (h : ∀ server, ∃ a, Ends server d [request] a) (replies : List Reply) :
    requests d replies = [request] := by
  have hask : d [] = .error request := (h fun _ _ => .ok []).elim fun _ hends => hends.asks
  have hdone (reply : Reply) (after : List Reply) : ∃ p, d ([] ++ reply :: after) = .ok p := by
    obtain ⟨a, hends⟩ := h fun _ _ => reply
    exact ⟨(a, after), hends.first_reply after⟩
  have hrequests := requests_append hdone replies
  rw [List.nil_append] at hrequests
  rw [hrequests, requests_nil, pending, hask]

/-- Nothing is asked for after a reply that is flawed. -/
theorem StopsAtFlaw.requests_after {flaw : Flaw} {r : Fault → α} (h : StopsAtFlaw flaw r d)
    {before : List Reply} {reply : Reply} {fault : Fault}
    (hflaw : ∀ request, d before = .error request → flaw request reply = some fault)
    (after : List Reply) : requests d (before ++ reply :: after) = requests d before := by
  have hdone (rest : List Reply) : ∃ p, d (before ++ reply :: rest) = .ok p := by
    cases hbefore : d before with
    | error request =>
      have hstops := h.stops hbefore (hflaw request hbefore)
      obtain ⟨used, hused, hmore⟩ := h.steady hstops
      rw [List.append_nil] at hused
      subst hused
      exact ⟨(r fault, rest), by simpa using hmore rest⟩
    | ok p =>
      obtain ⟨used, hused, hmore⟩ := h.steady hbefore
      subst hused
      exact ⟨_, by simpa using hmore (p.2 ++ reply :: rest)⟩
  have hconcat : requests d (before ++ [reply]) = requests d before := by
    obtain ⟨p, hp⟩ := hdone []
    rw [requests_concat]
    simp only [pending, hp, List.append_nil]
  rw [← hconcat, ← List.singleton_append, ← List.append_assoc]
  refine requests_append (fun next after => ?_) after
  obtain ⟨p, hp⟩ := hdone (next :: after)
  exact ⟨p, by simpa using hp⟩

end Exchange

/-! ## Tags and changes -/

/-- The tag of an operation. -/
def Operation.tag : Operation → String
  | listModules => "get_modules"
  | listVersions _ => "get_versions"
  | defaultVersion _ => "get_default_version"
  | instanceCount _ _ => "get_num_instances"
  | setInstanceCount _ _ _ => "set_num_instances"
  | startVersion _ _ => "start_version"
  | stopVersion _ _ => "stop_version"
  | hostname _ _ _ => "get_hostname"

theorem Operation.method_caller (op : Operation) : op.method.caller = op.tag := by
  cases op <;> rfl

/-- Only the same operation has the same tag. -/
theorem Operation.tag_inj {op op' : Operation} : op.tag = op'.tag ↔ op.name = op'.name := by
  cases op <;> cases op' <;> simp [tag, name]

/-- A request that is made to change something. -/
def Request.isChange : Request → Bool
  | .get _ _ => false
  | .patch _ _ _ => true
  | .call method _ _ => method ∈ ["SetNumInstances", "StartModule", "StopModule"]

/-- A request that changes this version and nothing else. -/
inductive Request.Changes (module version : String) : Request → Prop
  | patch {project caller} (change : Admin.Patch) : Changes module version
      (.patch (Admin.Path.versionPatch project module version change.mask).write change.body caller)
  | call {call : Backend.Call} : (∃ count, call = .setInstanceCount module version count) ∨
      (∃ status, call = .setServingStatus module version status) →
      Changes module version (call.method.request call.message)

/-! ## Operations -/

namespace Operation

variable {identity : Identity} {op : Operation}

theorem exists_target_of_change {change : Admin.Patch} (h : op.change? = some change) :
    ∃ module version, op.target? = some (module, version) := by
  cases op <;> cases h <;> exact ⟨_, _, rfl⟩

theorem call_of_change {change : Admin.Patch} {module version : Option String} {name : String}
    (hchange : op.change? = some change) (htarget : op.target? = some (module, version))
    (hversion : identity.versionFor version = some name) :
    (∃ count, op.call identity =
        .ok (.setInstanceCount (identity.moduleFor module) name count)) ∨
      ∃ status, op.call identity =
        .ok (.setServingStatus (identity.moduleFor module) name status) := by
  cases op with
  | setInstanceCount count =>
    cases htarget
    exact .inl ⟨count, by rw [Operation.call, Identity.callFor, hversion]⟩
  | startVersion =>
    cases htarget
    exact .inr ⟨.serving, by rw [Operation.call, Identity.callFor, hversion]⟩
  | stopVersion =>
    cases htarget
    exact .inr ⟨.stopped, by rw [Operation.call, Identity.callFor, hversion]⟩
  | _ => cases hchange

end Operation

namespace Access

variable {identity : Identity} {op : Operation}

/-- The requests of an operation while these replies come in. -/
def requests (a : Access) (identity : Identity) (op : Operation) (replies : List Reply) :
    List Request :=
  Dialogue.requests ((a.client identity).perform op).run replies

theorem requests_of_refused (a : Access) {failure : Failure} (h : op.Refused identity failure)
    (replies : List Reply) : a.requests identity op replies = [] := by
  have hcall : op.call (a.client identity).identity = .error failure := Operation.call_eq_error.2 h
  rw [requests, Client.perform_run, Client.oneCall, hcall]
  exact requests_pure _ _

theorem requests_legacy (endpoint : Legacy.Endpoint) {call : Backend.Call}
    (h : op.call identity = .ok call) (replies : List Reply) :
    (legacy endpoint).requests identity op replies = [call.method.request call.message] := by
  have hcall : op.call ((legacy endpoint).client identity).identity = .ok call := h
  refine requests_single (fun server => ?_) replies
  rw [Client.perform_run, Client.oneCall, hcall]
  exact ⟨_, (Legacy.perform_ends server call).map op.settled⟩

/-- The method is that of the operation, whatever the call is about. -/
theorem request_of_call {call : Backend.Call} (h : op.call identity = .ok call) :
    call.method.request call.message =
      .call op.method.name call.message.encode op.tag := by
  rw [Legacy.Method.request, Operation.call_method h, op.method_caller]

theorem mem_requests_legacy {endpoint : Legacy.Endpoint} {replies : List Reply} {request : Request}
    (hmem : request ∈ (legacy endpoint).requests identity op replies) :
    ∃ message, request = .call op.method.name message op.tag := by
  cases hcall : op.call identity with
  | error failure =>
    rw [requests_of_refused _ (Operation.call_eq_error.1 hcall)] at hmem
    cases hmem
  | ok call =>
    rw [requests_legacy endpoint hcall, request_of_call hcall] at hmem
    exact ⟨_, List.mem_singleton.1 hmem⟩

theorem requests_patch (project : String) (endpoint : Admin.Endpoint) {change : Admin.Patch}
    {module version : Option String} {name : String} (hchange : op.change? = some change)
    (htarget : op.target? = some (module, version))
    (hversion : identity.versionFor version = some name) (replies : List Reply) :
    (admin project endpoint).requests identity op replies =
      [.patch (Admin.Path.versionPatch project (identity.moduleFor module) name change.mask).write
        change.body op.tag] := by
  refine requests_single (fun server => ?_) replies
  have hpatch := Admin.patch_ends server project (identity.moduleFor module) name change op.tag
  have hends := (hpatch.run_map fun _ => Answer.done).map op.settled
  rw [Client.perform_run, Client.oneCall, Access.client]
  cases op with
  | setInstanceCount | startVersion | stopVersion =>
    cases hchange
    cases htarget
    simp only [Operation.call, Identity.callFor, hversion]
    exact ⟨_, hends⟩
  | _ => cases hchange

theorem requests_reads (project : String) (endpoint : Admin.Endpoint) (h : op.change? = none)
    (replies : List Reply) : ∀ request ∈ (admin project endpoint).requests identity op replies,
      Admin.Reads project op.tag request := by
  have hreads := Access.perform_reads project endpoint identity h
  rw [op.method_caller] at hreads
  exact hreads.of_requests replies

theorem requests_tagged (a : Access) (identity : Identity) (op : Operation)
    (replies : List Reply) :
    ∀ request ∈ a.requests identity op replies, request.caller = op.tag := by
  intro request hmem
  cases a with
  | legacy endpoint =>
    obtain ⟨message, rfl⟩ := mem_requests_legacy hmem
    rfl
  | admin project endpoint =>
    have hasked : Admin.Asked project op.method.caller request :=
      (Access.perform_asks project endpoint identity op).of_requests replies request hmem
    rw [← op.method_caller]
    cases hasked <;> rfl

/-- An operation that is to change nothing does not. -/
theorem requests_unchanging (a : Access) (identity : Identity) (h : op.change? = none)
    (replies : List Reply) :
    ∀ request ∈ a.requests identity op replies, request.isChange = false := by
  intro request hmem
  cases a with
  | legacy endpoint =>
    obtain ⟨message, rfl⟩ := mem_requests_legacy hmem
    cases op with
    | setInstanceCount | startVersion | stopVersion => cases h
    | _ => rfl
  | admin project endpoint =>
    obtain ⟨resource, rfl⟩ := requests_reads project endpoint h replies request hmem
    rfl

/-- An operation that is to change a version does so with one request. -/
theorem requests_changing (a : Access) {change : Admin.Patch} {module version : Option String}
    {name : String} (hchange : op.change? = some change)
    (htarget : op.target? = some (module, version))
    (hversion : identity.versionFor version = some name) :
    ∃ request, request.Changes (identity.moduleFor module) name ∧
      ∀ replies, a.requests identity op replies = [request] := by
  cases a with
  | legacy endpoint =>
    rcases Operation.call_of_change hchange htarget hversion with ⟨count, hcall⟩ | ⟨status, hcall⟩
    · exact ⟨_, .call (.inl ⟨count, rfl⟩), requests_legacy endpoint hcall⟩
    · exact ⟨_, .call (.inr ⟨status, rfl⟩), requests_legacy endpoint hcall⟩
  | admin project endpoint =>
    exact ⟨_, .patch change, requests_patch project endpoint hchange htarget hversion⟩

/-- Whatever is refused or fails, an operation changes one version at most, once. -/
theorem requests_change_once (a : Access) (identity : Identity) (op : Operation) :
    (∀ replies, ∀ request ∈ a.requests identity op replies, request.isChange = false) ∨
    ∃ module version name request, op.target? = some (module, version) ∧
      identity.versionFor version = some name ∧
      request.Changes (identity.moduleFor module) name ∧
      ∀ replies, a.requests identity op replies = [request] := by
  cases hchange : op.change? with
  | none => exact .inl fun replies => requests_unchanging a identity hchange replies
  | some change =>
    obtain ⟨module, version, htarget⟩ := Operation.exists_target_of_change hchange
    cases hversion : identity.versionFor version with
    | some name =>
      obtain ⟨request, hchanges, hrequests⟩ := requests_changing a hchange htarget hversion
      exact .inr ⟨module, version, name, request, htarget, hversion, hchanges, hrequests⟩
    | none =>
      obtain ⟨call, hcall⟩ := Operation.call_of_target (i := identity) htarget
      have herror : op.call identity = .error (.unknownVersion (identity.moduleFor module)) := by
        rw [hcall, Identity.callFor, hversion]
      refine .inl fun replies request hmem => ?_
      rw [requests_of_refused a (Operation.call_eq_error.1 herror)] at hmem
      cases hmem

/-- Over the admin API a reply that cannot be used ends an operation. -/
theorem perform_stopsAtFlaw (project : String) (endpoint : Admin.Endpoint) (identity : Identity)
    (op : Operation) : ∃ r, StopsAtFlaw Admin.flaw r
      (((admin project endpoint).client identity).perform op).run := by
  rw [Client.perform_run, Client.oneCall]
  cases op.call ((admin project endpoint).client identity).identity with
  | error failure => exact ⟨fun _ => .error failure, .pure _⟩
  | ok call => exact ⟨_, .map op.settled (Admin.perform_failsAtFlaw project call)⟩

/-- The requests of an operation, whatever replies come in. -/
structure Disciplined (a : Access) (identity : Identity) (op : Operation) : Prop where
  /-- All carry the tag of the operation, whichever service they are for. -/
  tagged : ∀ replies, ∀ request ∈ a.requests identity op replies, request.caller = op.tag
  /-- What is refused for its arguments makes none. -/
  refused : ∀ failure, op.Refused identity failure →
    ∀ replies, a.requests identity op replies = []
  /-- Otherwise the legacy service is called once, by the method of the operation. -/
  called : ∀ endpoint, a = .legacy endpoint → (∀ failure, ¬ op.Refused identity failure) →
    ∃ message, ∀ replies,
      a.requests identity op replies = [.call op.method.name message op.tag]
  /-- Resources of the admin API are only read where nothing is to be changed. -/
  reads : ∀ project endpoint, a = .admin project endpoint → op.change? = none →
    ∀ replies, ∀ request ∈ a.requests identity op replies,
      ∃ resource : Admin.Resource, request = .get (resource.path project).write op.tag
  /-- A change is one request about the version that is meant. -/
  patches : ∀ project endpoint change module version name, a = .admin project endpoint →
    op.change? = some change → op.target? = some (module, version) →
    identity.versionFor version = some name → ∀ replies, a.requests identity op replies =
      [.patch (Admin.Path.versionPatch project (identity.moduleFor module) name change.mask).write
        change.body op.tag]
  /-- Nothing is asked for once a request has failed. -/
  failed : ∀ before fault after, a.requests identity op (before ++ .error fault :: after) =
    a.requests identity op before
  /-- Nor once a reply of the admin API cannot be read. -/
  unread : ∀ project endpoint, a = .admin project endpoint → ∀ before reply after fault,
    (∀ request, ((a.client identity).perform op).run before = .error request →
      Admin.flaw request reply = some fault) →
    a.requests identity op (before ++ reply :: after) = a.requests identity op before
  /-- So there is no change, or there is one request, which changes one version. -/
  changes : (∀ replies, ∀ request ∈ a.requests identity op replies, request.isChange = false) ∨
    ∃ module version name request, op.target? = some (module, version) ∧
      identity.versionFor version = some name ∧
      request.Changes (identity.moduleFor module) name ∧
      ∀ replies, a.requests identity op replies = [request]
  /-- And none where none is to be made. -/
  unchanging : op.change? = none →
    ∀ replies, ∀ request ∈ a.requests identity op replies, request.isChange = false

/-- **Requests are disciplined.** At every moment of an operation, whatever
its arguments, its service and the replies, its requests carry its own tag; the
legacy service is called once, the admin API is read, or changed by one request
about the version that is meant; what is refused asks for nothing; and nothing
follows a failure. -/
theorem requests_disciplined (a : Access) (identity : Identity) (op : Operation) :
    a.Disciplined identity op ∧ ∀ op' : Operation, op.tag = op'.tag ↔ op.name = op'.name where
  left :=
    { tagged := requests_tagged a identity op
      refused := fun _ => requests_of_refused a
      called := by
        rintro endpoint rfl hallowed
        cases hcall : op.call identity with
        | error failure => exact absurd (Operation.call_eq_error.1 hcall) (hallowed failure)
        | ok call =>
          refine ⟨call.message.encode, fun replies => ?_⟩
          rw [requests_legacy endpoint hcall, request_of_call hcall]
      reads := by
        rintro project endpoint rfl hchange
        exact requests_reads project endpoint hchange
      patches := by
        rintro project endpoint change module version name rfl hchange htarget hversion
        exact requests_patch project endpoint hchange htarget hversion
      failed := fun before fault after =>
        (stopsAt_iff.1 (a.perform_stopsAt identity op)).requests_after (fun _ _ => rfl) after
      unread := by
        rintro project endpoint rfl before reply after fault hflaw
        obtain ⟨r, hstops⟩ := perform_stopsAtFlaw project endpoint identity op
        exact hstops.requests_after hflaw after
      changes := requests_change_once a identity op
      unchanging := requests_unchanging a identity }
  right _ := Operation.tag_inj

end Access
end ControlPlane
