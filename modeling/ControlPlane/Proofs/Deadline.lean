/-
Deadlines that pass. Each call has the deadline that settings give it, and an
operation ends at the first request that is cut off by it. Over the admin API
the caller is told to try again. A call of the legacy service that is cut off
reads like one that was cancelled, and nothing says that it may be retried.
-/
import ControlPlane.Proofs.Conditions

namespace ControlPlane

open Dialogue

/-- How long a call may take, in the mode that is set. -/
def Settings.deadlineMs (s : Settings) : Nat :=
  match s.mode with
  | .legacy => s.legacy.rpcTimeoutMs
  | .admin => s.admin.requestTimeoutMs

namespace Access

/-- The service as it is reached over a network, which may change with every
request made. -/
def server (a : Access) (network : List Request → Network) : Server Request Reply :=
  fun made request => a.answer (network made) request

/-- What is sent for the request is cut off by the deadline. -/
def Expires (network : Network) : Access → Request → Prop
  | legacy endpoint, .call method message caller =>
    network.call endpoint (.of method message caller) = .expired
  | admin _ endpoint, .get path caller =>
    ∃ sent, endpoint.prepare .get path none caller = .ok sent ∧ network.exchange sent = .expired
  | admin _ endpoint, .patch path body caller => ∃ sent,
    endpoint.prepare .patch path (some body) caller = .ok sent ∧ network.exchange sent = .expired
  | _, _ => False

/-- The deadline of each call, in milliseconds. -/
def deadlineMs : Access → Nat
  | legacy endpoint => endpoint.rpcTimeoutMs
  | admin _ endpoint => endpoint.timeoutMs

/-- What the caller is told when the request is cut off. -/
def timedOut : Access → Request → Failure
  | admin _ endpoint, .get path _ =>
    .transient s!"GET {endpoint.url path} timed out after {Decimal.text endpoint.timeoutMs} ms"
  | admin _ endpoint, .patch path _ _ =>
    .transient s!"PATCH {endpoint.url path} timed out after {Decimal.text endpoint.timeoutMs} ms"
  | _, _ => .generic "Timeout expired" (some (.rpc 1))

variable {a : Access} {network : Network} {request : Request}

/-- A request that is cut off is answered by a fault that every operation tells
of in one way. -/
theorem answer_expired (h : a.Expires network request) :
    ∃ fault, a.answer network request = .error fault ∧
      ∀ op, a.classify op fault = a.timedOut request := by
  cases a with
  | legacy endpoint =>
    cases request with
    | call method message caller =>
      refine ⟨.rpc .cancelled "Timeout expired", ?_, fun op => rfl⟩
      simp only [answer, Legacy.answer, Expires] at h ⊢
      rw [h]
      rfl
    | _ => cases h
  | admin project endpoint =>
    cases request with
    | call => cases h
    | get path caller =>
      obtain ⟨sent, hprepare, hexpired⟩ := h
      have hanswer : (admin project endpoint).answer network (.get path caller) =
          endpoint.reply .get path .expired := by
        simp only [answer, Admin.Endpoint.answer, Admin.Endpoint.exchange, hprepare, hexpired]
      exact ⟨_, hanswer, fun op => rfl⟩
    | patch path body caller =>
      obtain ⟨sent, hprepare, hexpired⟩ := h
      have hanswer : (admin project endpoint).answer network (.patch path body caller) =
          endpoint.reply .patch path .expired := by
        simp only [answer, Admin.Endpoint.answer, Admin.Endpoint.exchange, hprepare, hexpired]
      exact ⟨_, hanswer, fun op => rfl⟩

theorem timedOut_kind (h : a.Expires network request) :
    (a.timedOut request).kind = match a.backend.mode with
      | .admin => .transient
      | .legacy => .generic := by
  cases a with
  | legacy => cases request <;> rfl
  | admin =>
    cases request with
    | call => cases h
    | _ => rfl

/-- A backend keeps to the deadline that settings give its calls. -/
theorem deadlineMs_ofSettings {s : Settings} {lookup : String → Option String}
    (h : ofSettings s lookup = .ok a) : a.deadlineMs = s.deadlineMs := by
  rw [Settings.deadlineMs]
  cases hmode : s.mode with
  | legacy =>
    rw [ofSettings, hmode] at h
    simp only [Legacy.Endpoint.ofSettings] at h
    split at h
    · next endpoint hendpoint =>
      split at hendpoint <;> cases hendpoint
      cases h
      rfl
    · cases h
  | admin =>
    rw [ofSettings, hmode] at h
    simp only [Admin.Endpoint.ofSettings] at h
    split at h
    · cases h
    split at h
    · next endpoint hendpoint =>
      split at hendpoint
      · cases hendpoint
      split at hendpoint <;> cases hendpoint
      cases h
      rfl
    · cases h

end Access

/-- **Elapsed deadlines.** An operation ends at the first request that is cut
off by the deadline that settings give it. Its failure can be retried over the
admin API, and over no other: a call of the legacy service that is cut off
comes to a failure of no kind of its own, with the code of a cancelled call. -/
theorem elapsed_deadlines (a : Access) (identity : Identity) (op : Operation)
    {network : List Request → Network} {made received request}
    (h : Reaches (a.server network) ((a.client identity).perform op).run made received)
    (hask : ((a.client identity).perform op).run received = .error request)
    (hexpires : a.Expires (network made) request) :
    Ends (a.server network) ((a.client identity).perform op).run (made ++ [request])
      (.error (a.timedOut request)) ∧
    ((a.timedOut request).isRetryable = true ↔ a.backend.mode = .admin) ∧
    ∀ s lookup, Access.ofSettings s lookup = .ok a → a.deadlineMs = s.deadlineMs := by
  obtain ⟨fault, hanswer, hclassify⟩ := Access.answer_expired hexpires
  have hkind := Access.timedOut_kind hexpires
  have hends := (a.perform_stopsAt identity op).ends h hask hanswer
  refine ⟨?_, ?_, fun _ _ => Access.deadlineMs_ofSettings⟩
  · -- Neither kind is one that a change of status absorbs.
    rwa [hclassify op, Operation.settle_eq_error] at hends
    rw [hkind]
    cases a <;> nofun
  · rw [Failure.isRetryable, hkind]
    cases a.backend.mode <;> decide

/-- A network in which every deadline passes. -/
def Network.silent : Network where
  exchange _ := .expired
  call _ _ := .expired

/-- One operation in both modes, each with a deadline of its own. -/
theorem elapsed_deadlines_listing :
    let settings (useAdminApi : Bool) : Settings :=
      { useAdminApi, projectId := some "demo", legacy := { rpcTimeoutMs := 1500 }
        admin := { baseUrl := "https://api.test/v1/", requestTimeoutMs := 250 } }
    let legacy := Access.legacy ⟨"http://127.0.0.1:50051", 5000, 1500⟩
    let admin := Access.admin "demo"
      ⟨"https://api.test/v1", 250, "appengine-modules-api-rust-client", none⟩
    (Access.ofSettings (settings false) (fun _ => none) = .ok legacy ∧ legacy.deadlineMs = 1500 ∧
      Ends (legacy.server fun _ => .silent) ((legacy.client .unknown).perform .listModules).run
        [.call "GetModules" [] "get_modules"]
        (.error (.generic "Timeout expired" (some (.rpc 1))))) ∧
    (Access.ofSettings (settings true) (fun _ => none) = .ok admin ∧ admin.deadlineMs = 250 ∧
      Ends (admin.server fun _ => .silent) ((admin.client .unknown).perform .listModules).run
        [.get "apps/demo/services" "get_modules"]
        (.error
          (.transient "GET https://api.test/v1/apps/demo/services timed out after 250 ms"))) := by
  intro settings legacy admin
  have hlegacy : legacy.Expires .silent (.call "GetModules" [] "get_modules") := rfl
  have hadmin : admin.Expires .silent (.get "apps/demo/services" "get_modules") :=
    ⟨_, by rfl, rfl⟩
  have hset : Access.ofSettings (settings false) (fun _ => none) = .ok legacy := by
    simp only [settings, legacy]
    decide +kernel
  have hset' : Access.ofSettings (settings true) (fun _ => none) = .ok admin := by
    simp only [settings, admin]
    decide +kernel
  have hstart : Reaches (legacy.server fun _ => .silent)
      ((legacy.client .unknown).perform .listModules).run [] [] := .start
  have hstart' : Reaches (admin.server fun _ => .silent)
      ((admin.client .unknown).perform .listModules).run [] [] := .start
  obtain ⟨hends, -, hdeadline⟩ :=
    elapsed_deadlines legacy .unknown .listModules hstart rfl hlegacy
  obtain ⟨hends', -, hdeadline'⟩ :=
    elapsed_deadlines admin .unknown .listModules hstart' rfl hadmin
  exact ⟨⟨hset, hdeadline _ _ hset, hends⟩, hset', hdeadline' _ _ hset', hends'⟩

end ControlPlane
