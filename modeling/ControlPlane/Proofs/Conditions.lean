/-
The conditions that operations document, and the kind of failure a caller is
told when a service reports one. What an operation makes of a fault is one
table for each backend (`Access.classify`); that the table is what happens, in
any run and at any request, is `Access.perform_stopsAt`.
-/
import ControlPlane.Access
import ControlPlane.Proofs.Hostname
import ControlPlane.Proofs.Listing

namespace ControlPlane

open Dialogue Exchange

/-! ## What faults are classified as -/

namespace Fault

/-- What trying again may mend. -/
def MayPass : Fault → Prop
  | http status _ => 500 ≤ status
  | rpc code _ => code.number ∈ [4, 8, 10, 14]
  | io _ => True
  | _ => False

/-- The code that a fault carries. -/
def code? : Fault → Option Failure.Code
  | http status _ => some (.http status)
  | application code _ => some (.application code)
  | rpc code _ => some (.rpc code.number)
  | io _ | decode _ | protocol _ | request _ => none

/-- What is said of a resource that is not found. -/
def notFound (detail : String) : Missing → Failure
  | .project => .generic s!"project not found: {detail}" (some (.http 404))
  | .module => .invalidModule detail
  | .version => .invalidVersion detail

/-- The failure that a fault comes to, where `missing` is not found by a 404. -/
structure Classified (missing : Missing) (fault : Fault) (failure : Failure) : Prop where
  badRequest : ∀ detail, fault = .http 400 detail → failure = .invalidInstances detail
  notFound : ∀ detail, fault = .http 404 detail → failure = notFound detail missing
  mayPass : fault.MayPass → failure = .transient fault.detail
  other : (∀ detail, fault ≠ .http 400 detail) → (∀ detail, fault ≠ .http 404 detail) →
    ¬ fault.MayPass → failure = .generic fault.detail fault.code?
  /-- A failure of no kind of its own keeps the code there is. -/
  code : failure.kind = .generic → failure.code = fault.code?
  isRetryable : failure.isRetryable = true ↔ fault.MayPass

theorem mayPass_rpc {code : Rpc.Code} {detail : String} :
    (rpc code detail).MayPass ↔ code.isTransient = true := by
  cases code <;> simp [MayPass, Rpc.Code.number, Rpc.Code.isTransient]

theorem classifyStatus_classified (missing : Missing) (status : Nat) (detail : String) :
    Classified missing (.http status detail) (classifyStatus missing status detail) := by
  unfold classifyStatus
  by_cases h400 : status = 400
  · subst h400
    constructor <;> simp [MayPass, Failure.isRetryable, Failure.kind]
  by_cases h404 : status = 404
  · subst h404
    cases missing <;> constructor <;>
      simp [MayPass, Fault.notFound, Failure.isRetryable, Failure.kind, Failure.code, code?]
  by_cases h500 : 500 ≤ status <;> constructor <;>
    simp [h400, h404, h500, MayPass, Failure.isRetryable, Failure.kind, Failure.code, code?,
      Fault.detail]

theorem classify_classified (missing : Missing) (fault : Fault) :
    Classified missing fault (fault.classify missing) := by
  cases fault with
  | http status detail => exact classifyStatus_classified missing status detail
  | rpc code detail =>
    rw [classify]
    by_cases h : code.isTransient = true <;> constructor <;>
      simp [h, mayPass_rpc, Failure.isRetryable, Failure.kind, Failure.code, code?, Fault.detail]
  | _ => constructor <;> simp [classify, MayPass, Failure.isRetryable, Failure.kind, Failure.code,
      code?, Fault.detail]

theorem Classified.kind_ne {missing : Missing} {fault : Fault} {failure : Failure}
    (h : Classified missing fault failure) : failure.kind ≠ .unexpectedState := by
  by_cases hpass : fault.MayPass
  · rw [h.mayPass hpass]
    nofun
  by_cases hbad : ∃ detail, fault = .http 400 detail
  · obtain ⟨detail, hbad⟩ := hbad
    rw [h.badRequest detail hbad]
    nofun
  by_cases hmissing : ∃ detail, fault = .http 404 detail
  · obtain ⟨detail, hmissing⟩ := hmissing
    rw [h.notFound detail hmissing]
    cases missing <;> nofun
  · rw [h.other (not_exists.1 hbad) (not_exists.1 hmissing) hpass]
    nofun

theorem classify_serverError {status : Nat} (h : 500 ≤ status) (missing : Missing)
    (detail : String) : (http status detail).classify missing = .transient detail :=
  (classify_classified missing _).mayPass h

end Fault

/-! ## What an operation makes of a fault -/

/-- What becomes of a change: to find the status as wanted is to succeed. -/
def Client.absorbed : Except Failure Unit → Except Failure Unit
  | .error (.unexpectedState _) => .ok ()
  | outcome => outcome

namespace Operation

/-- What is missing when a resource of the admin API is not found. -/
def missing : Operation → Missing
  | listModules => .project
  | listVersions _ | defaultVersion _ | instanceCount _ _ | hostname _ _ _ => .module
  | setInstanceCount _ _ _ | startVersion _ _ | stopVersion _ _ => .version

/-- The method of the legacy service that is called. -/
def method : Operation → Legacy.Method
  | listModules => .getModules
  | listVersions _ => .getVersions
  | defaultVersion _ => .getDefaultVersion
  | instanceCount _ _ => .getNumInstances
  | setInstanceCount _ _ _ => .setNumInstances
  | startVersion _ _ => .startModule
  | stopVersion _ _ => .stopModule
  | hostname _ _ _ => .getHostname

/-- How an operation ends once its backend has failed. -/
def settle : Operation → Failure → Except Failure Answer
  | startVersion _ _, failure | stopVersion _ _, failure =>
    (Client.absorbed (.error failure)).map fun _ => .done
  | _, failure => .error failure

end Operation

/-- The failure that a fault in reply to an operation's request comes to. -/
def Access.classify : Access → Operation → Fault → Failure
  | legacy _, op => op.method.policy.classify
  | admin _ _, op => Fault.classify op.missing

/-! ### The legacy service -/

namespace Legacy

theorem Method.call_failsAs (method : Method) (message : Message) :
    FailsAs method.policy.classify (method.call message) := by
  refine .adapt method.policy.classify (.bind (.send _) fun body => ?_)
  cases Message.decode? method.reply body with
  | some reply => exact .decided (.ok _)
  | none => exact .decided (.error _)

/-- An operation is one call and a decision on its reply. -/
theorem call_bind_failsAs {α : Type} (method : Method) (message : Message)
    (read : Message → Except Failure α) :
    FailsAs method.policy.classify
      (method.call message >>= fun reply => ExceptT.mk (pure (read reply))) :=
  .bind (method.call_failsAs message) fun reply => .decided (read reply)

theorem setServingStatus_failsAs (module version : String) (status : ServingStatus) :
    FailsAs Method.startModule.policy.classify (setServingStatus module version status) := by
  cases status with
  | serving => exact call_bind_failsAs .startModule _ fun _ => .ok ()
  | stopped => exact call_bind_failsAs .stopModule _ fun _ => .ok ()

end Legacy

/-! ### The admin API -/

namespace Admin

theorem fetch_failsAs {α : Type} (reply? : Json → Option α) (path caller : String) :
    FailsAs id (fetch reply? path caller) := by
  refine .bind (.send _) fun body => ?_
  cases decode? reply? body with
  | some reply => exact .decided (.ok _)
  | none => exact .decided (.error _)

theorem patch_failsAs (project module version : String) (patch : Patch) (caller : String) :
    FailsAs (Fault.classify .version) (Admin.patch project module version patch caller) :=
  .adapt _ (.bind (.send _) fun _ => .decided (.ok _))

theorem hostname_failsAs (project : String) (q : HostnameQuery) :
    FailsAs (Fault.classify .module) (hostname project q) := by
  refine HostnameQuery.resolve_closed (P := fun x => FailsAs (Fault.classify .module) x)
    (fun x => .decided x) (fun _ _ => .bind) _ _ ?_ ?_ ?_ ?_
  · exact .adapt _ (.bind (Listing.walk_failsAs _) fun _ => .decided (.ok _))
  · exact .adapt _ (.bind (fetch_failsAs _ _ _) fun _ => .decided _)
  · exact .adapt _ (.bind (Listing.walk_failsAs _) fun _ => .decided (.ok _))
  · exact fun _ => .adapt _ (.bind (fetch_failsAs _ _ _) fun _ => .decided (.ok _))

end Admin

/-! ### The client -/

namespace Client

theorem absorbUnexpectedState_run {m : Type → Type} [Monad m] [LawfulMonad m]
    (change : ExceptT Failure m Unit) :
    (absorbUnexpectedState change).run = absorbed <$> change.run := by
  rw [map_eq_pure_bind]
  simp only [absorbUnexpectedState, tryCatch, tryCatchThe, MonadExceptOf.tryCatch,
    ExceptT.tryCatch, ExceptT.run_mk]
  refine congrArg (change.run >>= ·) (funext fun outcome => ?_)
  rcases outcome with (_ | _ | _ | _ | _ | _) | _ <;> rfl

variable {r : Fault → Failure} {c : Client Exchange}

/-- A version is found out without asking. -/
theorem versionOrCurrent_bind_failsAs {α : Type} {module : String} {version : Option String}
    {f : String → ExceptT Failure Exchange α} (h : ∀ version, FailsAs r (f version)) :
    FailsAs r (c.versionOrCurrent module version >>= f) := by
  unfold versionOrCurrent
  cases version <|> c.identity.version with
  | some version => exact .bind (.decided (.ok version)) h
  | none => exact .bind (.decided (.error _)) h

theorem setServingStatus_stopsAt {status : ServingStatus} {module version : Option String}
    (h : ∀ module version, FailsAs r (c.backend.setServingStatus module version status)) :
    StopsAt (fun fault => (absorbed (.error (r fault))).map fun _ => Answer.done)
      ((fun _ => Answer.done) <$> c.setServingStatus status module version).run := by
  rw [ExceptT.run_map]
  refine .map (Except.map _) ?_
  unfold setServingStatus versionOrCurrent
  cases version <|> c.identity.version with
  | some version =>
    rw [pure_bind, absorbUnexpectedState_run]
    exact StopsAt.map absorbed (h _ version)
  | none => exact .pure _

end Client

/-- **Faults end operations.** Whatever an operation asks for next, a fault in
reply ends it, as the table of its backend says. -/
theorem Access.perform_stopsAt (a : Access) (identity : Identity) (op : Operation) :
    StopsAt (fun fault => op.settle (a.classify op fault))
      ((a.client identity).perform op).run := by
  cases op with
  | listModules =>
    refine FailsAs.map _ ?_
    cases a with
    | legacy => exact Legacy.call_bind_failsAs .getModules _ fun _ => .ok _
    | admin => exact .adapt _ (.bind (Admin.Listing.walk_failsAs _) fun _ => .decided (.ok _))
  | listVersions module =>
    refine FailsAs.map _ ?_
    cases a with
    | legacy => exact Legacy.call_bind_failsAs .getVersions _ fun _ => .ok _
    | admin => exact .adapt _ (.bind (Admin.Listing.walk_failsAs _) fun _ => .decided (.ok _))
  | defaultVersion module =>
    refine FailsAs.map _ ?_
    cases a with
    | legacy => exact Legacy.call_bind_failsAs .getDefaultVersion _ fun _ => .ok _
    | admin => exact .bind (.adapt _ (Admin.fetch_failsAs _ _ _)) fun _ => .decided _
  | instanceCount module version =>
    refine FailsAs.map _ (Client.versionOrCurrent_bind_failsAs fun version => ?_)
    cases a with
    | legacy => exact Legacy.call_bind_failsAs .getNumInstances _ _
    | admin => exact .bind (.adapt _ (Admin.fetch_failsAs _ _ _)) fun _ => .decided _
  | setInstanceCount count module version =>
    refine FailsAs.map _ (Client.versionOrCurrent_bind_failsAs fun version => ?_)
    cases a with
    | legacy => exact Legacy.call_bind_failsAs .setNumInstances _ fun _ => .ok _
    | admin => exact Admin.patch_failsAs _ _ _ _ _
  | startVersion module version =>
    refine Client.setServingStatus_stopsAt fun module version => ?_
    cases a with
    | legacy => exact Legacy.setServingStatus_failsAs module version .serving
    | admin => exact Admin.patch_failsAs _ _ _ _ _
  | stopVersion module version =>
    refine Client.setServingStatus_stopsAt fun module version => ?_
    cases a with
    | legacy => exact Legacy.setServingStatus_failsAs module version .stopped
    | admin => exact Admin.patch_failsAs _ _ _ _ _
  | hostname module version index =>
    refine FailsAs.map _ ?_
    unfold Client.hostname
    cases parseInstance? index with
    | error failure => exact .decided (.error failure)
    | ok index =>
      cases a with
      | legacy => exact Legacy.call_bind_failsAs .getHostname _ fun _ => .ok _
      | admin => exact Admin.hostname_failsAs _ _

/-! ## Documented conditions -/

/-- A condition that operations document. -/
inductive Condition
  | moduleMissing
  | versionMissing
  /-- One of the lookups for a hostname finds nothing. -/
  | lookupEmpty
  | retryWanted
  deriving DecidableEq, Repr

/-- The code by which the legacy service tells of a condition. -/
def Condition.code : Condition → Legacy.Code
  | moduleMissing | lookupEmpty => .invalidModule
  | versionMissing => .invalidVersion
  | retryWanted => .transientError

/-- The kind of failure an operation documents for a condition, if it does. -/
def Operation.documented : Operation → Condition → Option Failure.Kind
  | listVersions _, .moduleMissing | defaultVersion _, .moduleMissing
  | hostname _ _ _, .lookupEmpty => some .invalidModule
  | instanceCount _ _, .versionMissing | setInstanceCount _ _ _, .versionMissing
  | startVersion _ _, .versionMissing | stopVersion _ _, .versionMissing => some .invalidVersion
  | listVersions _, .retryWanted | setInstanceCount _ _ _, .retryWanted
  | startVersion _ _, .retryWanted | stopVersion _ _, .retryWanted => some .transient
  | _, _ => none

/-- A request for the admin resource with these segments, whatever its query. -/
def Request.IsAt (segments : List String) : Request → Prop
  | get path _ | patch path _ _ => ∃ query, path = (Admin.Path.mk segments query).write
  | call _ _ _ => False

/-- How a service tells of a condition by the fault in reply to a request: the
legacy service by a code, the admin API by a status, where not to be found is
said of the resource that was asked for. -/
def Access.Reports : Access → Condition → Request → Fault → Prop
  | legacy _, c, _, fault => ∃ detail, fault = .application c.code.number detail
  | admin project _, .moduleMissing, request, fault => ∃ module detail,
    (request.IsAt (Admin.Path.service project module).segments ∨
      request.IsAt (Admin.Path.versions project module).segments) ∧ fault = .http 404 detail
  | admin project _, .versionMissing, request, fault => ∃ module version detail,
    request.IsAt (Admin.Path.versionSegments project module version) ∧ fault = .http 404 detail
  | admin _ _, .lookupEmpty, _, fault => ∃ detail, fault = .http 404 detail
  | admin _ _, .retryWanted, _, fault => ∃ status detail, 500 ≤ status ∧ fault = .http status detail

/-- Where the kind told is not the one documented: what is not found when the
count of a version is read over the admin API is taken for the module. -/
def Access.Mistakes : Access → Operation → Prop
  | admin _ _, .instanceCount _ _ => True
  | _, _ => False

namespace Legacy.Policy

/-- A code that is expected is taken at its word. -/
theorem classify_expected {policy : Policy} {code : Code} (h : code ∈ policy.expected)
    (detail : String) :
    policy.classify (.application code.number detail) = code.failure detail := by
  simp only [classify, Code.ofNumber?_number, h, or_true, if_true]

end Legacy.Policy

namespace Operation

variable {op : Operation} {c : Condition} {kind : Failure.Kind}

/-- The codes of the documented conditions are those a call expects. -/
theorem documented_code (h : op.documented c = some kind) :
    c.code ∈ op.method.policy.expected ∧ ∀ detail, (c.code.failure detail).kind = kind ∧
      (c.code.failure detail).detail = detail := by
  cases op <;> cases c <;> cases h <;> exact ⟨List.elem_iff.1 rfl, fun _ => ⟨rfl, rfl⟩⟩

theorem settle_eq_error {failure : Failure} (h : failure.kind ≠ .unexpectedState) :
    op.settle failure = .error failure := by
  cases failure with
  | unexpectedState => exact absurd rfl h
  | _ => cases op <;> rfl

theorem documented_ne_unexpectedState (h : op.documented c = some kind) :
    kind ≠ .unexpectedState := by
  rintro rfl
  cases op <;> cases c <;> cases h

end Operation

/-- The tables agree with the documentation, but for one entry. -/
theorem Access.classify_reported {a : Access} {op : Operation} {c : Condition}
    {kind : Failure.Kind} {request : Request} {fault : Fault}
    (hdocumented : op.documented c = some kind) (hreports : a.Reports c request fault) :
    (a.classify op fault).detail = fault.detail ∧
      ((a.classify op fault).kind = kind ↔ ¬ a.Mistakes op) ∧
      (a.Mistakes op → a.classify op fault = .invalidModule fault.detail) := by
  cases a with
  | legacy endpoint =>
    obtain ⟨detail, rfl⟩ := hreports
    obtain ⟨hexpected, hfailure⟩ := Operation.documented_code hdocumented
    obtain ⟨hkind, hdetail⟩ := hfailure detail
    simp only [classify, Legacy.Policy.classify_expected hexpected, hkind, hdetail, Mistakes]
    exact ⟨rfl, by simp, nofun⟩
  | admin project endpoint =>
    cases c with
    | moduleMissing =>
      obtain ⟨module, detail, -, rfl⟩ := hreports
      cases op <;> cases hdocumented <;> exact ⟨rfl, ⟨fun _ => id, fun _ => rfl⟩, nofun⟩
    | versionMissing =>
      obtain ⟨module, version, detail, -, rfl⟩ := hreports
      cases op with
      | instanceCount =>
        cases hdocumented
        exact ⟨rfl, ⟨nofun, fun h => absurd trivial h⟩, fun _ => rfl⟩
      | _ => cases hdocumented <;> exact ⟨rfl, ⟨fun _ => id, fun _ => rfl⟩, nofun⟩
    | lookupEmpty =>
      obtain ⟨detail, rfl⟩ := hreports
      cases op <;> cases hdocumented
      exact ⟨rfl, ⟨fun _ => id, fun _ => rfl⟩, nofun⟩
    | retryWanted =>
      obtain ⟨status, detail, hstatus, rfl⟩ := hreports
      simp only [classify, Fault.classify_serverError hstatus]
      cases op <;> cases hdocumented <;> exact ⟨rfl, ⟨fun _ => id, fun _ => rfl⟩, nofun⟩

/-- **Documented conditions come to their documented kinds** with both backends,
at whatever request they are reported, and their detail is kept. The one
exception is a version whose instance count is read over the admin API: when it
is missing, its module is said to be invalid. -/
theorem documented_conditions (a : Access) (identity : Identity) (op : Operation) (c : Condition)
    (kind : Failure.Kind) (hdocumented : op.documented c = some kind)
    {server : Server Request Reply} {made received request fault}
    (h : Reaches server ((a.client identity).perform op).run made received)
    (hask : ((a.client identity).perform op).run received = .error request)
    (hreply : server made request = .error fault) (hreports : a.Reports c request fault) :
    ∃ failure, Ends server ((a.client identity).perform op).run (made ++ [request])
        (.error failure) ∧
      failure.detail = fault.detail ∧ (failure.kind = kind ↔ ¬ a.Mistakes op) ∧
      (a.Mistakes op → failure = .invalidModule fault.detail) := by
  have hends := (a.perform_stopsAt identity op).ends h hask hreply
  obtain ⟨hdetail, hkind, hmistake⟩ := Access.classify_reported hdocumented hreports
  refine ⟨a.classify op fault, ?_, hdetail, hkind, hmistake⟩
  rwa [Operation.settle_eq_error] at hends
  by_cases hm : a.Mistakes op
  · rw [hmistake hm]
    nofun
  · rw [hkind.2 hm]
    exact Operation.documented_ne_unexpectedState hdocumented

/-- The exception: the version `v9` of the module `api` does not exist. -/
theorem documented_conditions_missing_version :
    Ends (fun _ _ => .error (.http 404 "Version not found."))
      (((Access.admin "demo" ⟨"https://api.test", 60000, "", none⟩).client .unknown).perform
        (.instanceCount (some "api") (some "v9"))).run
      [.get (Admin.Path.version "demo" "api" "v9").write "get_num_instances"]
      (.error (.invalidModule "Version not found.")) := by
  have hstart : Reaches (fun _ _ => .error (.http 404 "Version not found."))
      (((Access.admin "demo" ⟨"https://api.test", 60000, "", none⟩).client .unknown).perform
        (.instanceCount (some "api") (some "v9"))).run [] [] := .start
  obtain ⟨failure, hends, -, -, hmistake⟩ :=
    documented_conditions _ _ _ .versionMissing .invalidVersion rfl hstart rfl rfl
      ⟨"api", "v9", "Version not found.", ⟨[("view", "FULL")], rfl⟩, rfl⟩
  rw [hmistake trivial] at hends
  exact hends

end ControlPlane
