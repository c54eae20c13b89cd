/-
Hostnames agree with what the other operations report. Over a transport whose
replies hang on the method and the path alone, a read comes to the same for
whichever operation it is made and whatever was read before; so a hostname is
resolved from the very lists and details that the other operations tell of.
-/
import ControlPlane.Proofs.Conditions
import ControlPlane.Proofs.Paging

namespace ControlPlane.Admin

open Dialogue

/-! ## Transports that answer by method and path -/

/-- The transport that answers by method and path. -/
def byPath (answer : Method → String → Reply) : Server Request Reply
  | _, .get path _ => answer .get path
  | _, .patch path _ _ => answer .patch path
  | _, .call method _ _ => .error (.protocol s!"no method {method}")

variable {answer : Method → String → Reply} {α : Type}

theorem byPath_forgetful (answer : Method → String → Reply) : (byPath answer).Forgetful := by
  intro past
  funext made request
  cases request <;> rfl

/-- The same request, made for another operation. -/
def tagged (caller : String) : Request → Request
  | .get path _ => .get path caller
  | .patch path body _ => .patch path body caller
  | .call method message _ => .call method message caller

theorem byPath_tagged (caller : String) (past : List Request) (request : Request) :
    byPath answer (past.map (tagged caller)) (tagged caller request) =
      byPath answer past request := by
  cases request <;> rfl

/-! ## Reads -/

namespace Listing

/-- For another operation a walk makes the same requests with another tag. -/
theorem go_tagged (l l' : Listing α) (hbase : l'.base = l.base) (hpage? : l'.page? = l.page?)
    (token : Option String) (seen : List String) (replies : List Reply) :
    walkFrom.go l' token seen replies =
      (walkFrom.go l token seen replies).mapError (tagged l'.caller) := by
  have hpath (token : Option String) : l'.path token = l.path token := by rw [path, hbase, path]
  induction replies generalizing token seen with
  | nil => rw [walkFrom.go, hpath]; rfl
  | cons reply replies ih =>
    rcases reply with fault | body
    · rfl
    cases hpage : decode? l.page? body with
    | none => rw [go_undecodable hpage, go_undecodable (by rwa [hpage?]), hpath]; rfl
    | some page =>
      cases hnext : page.next.filter (· ≠ "") with
      | none => rw [go_last hpage hnext, go_last (by rwa [hpage?]) hnext]; rfl
      | some next =>
        by_cases hseen : next ∈ seen
        · rw [go_repeated hpage hnext hseen, go_repeated (by rwa [hpage?]) hnext hseen,
            repeatedToken, hbase]
          rfl
        · rw [go_page hpage hnext hseen, go_page (by rwa [hpage?]) hnext hseen, ih]
          rcases walkFrom.go l (some next) (next :: seen) replies with _ | ⟨_ | _, _⟩ <;> rfl

/-- A walk comes to the same for every operation. -/
theorem walk_yields {l l' : Listing α} (hbase : l'.base = l.base) (hpage? : l'.page? = l.page?)
    {outcome : Except Fault (List α)} :
    Yields (byPath answer) l.walk.run outcome → Yields (byPath answer) l'.walk.run outcome :=
  fun ⟨_, h⟩ => ⟨_, h.relabel (go_tagged l l' hbase hpage? none []) (byPath_tagged l'.caller)⟩

end Listing

theorem names_run (l : Listing α) (name : α → String) (missing : Missing) :
    (ExceptT.adapt (Fault.classify missing) do pure ((← l.walk).map name)).run =
      (fun outcome => (outcome.map (List.map name)).mapError (Fault.classify missing)) <$>
        l.walk.run := by
  rw [bind_pure_comp]
  change Except.mapError (Fault.classify missing) <$> (List.map name <$> l.walk).run = _
  rw [ExceptT.run_map, ← comp_map]
  rfl

/-- Reads of one listing come to the same names, whichever operation makes them
and whatever it takes for missing. -/
theorem names_yields (l l' : Listing α) (hbase : l'.base = l.base) (hpage? : l'.page? = l.page?)
    {name : α → String} {missing missing' : Missing} {names : List String}
    (h : Yields (byPath answer) (ExceptT.adapt (Fault.classify missing) do
      pure ((← l.walk).map name)).run (.ok names)) :
    Yields (byPath answer) (ExceptT.adapt (Fault.classify missing') do
      pure ((← l'.walk).map name)).run (.ok names) := by
  rw [names_run] at h ⊢
  obtain ⟨outcome, hwalk, hnames⟩ := h.of_map (Listing.walk_steady l)
  rcases outcome with fault | items
  · cases hnames
  · rw [← hnames]
    exact (Listing.walk_yields hbase hpage? hwalk).map _

/-- What a reply to a read comes to. -/
def fetched (reply? : Json → Option α) (path : String) : Reply → Except Fault α
  | .error fault => .error fault
  | .ok body =>
    match decode? reply? body with
    | some a => .ok a
    | none => .error (undecodable path)

theorem fetch_run_cons (reply? : Json → Option α) (path caller : String) (reply : Reply)
    (rest : List Reply) :
    (fetch reply? path caller).run (reply :: rest) = .ok (fetched reply? path reply, rest) := by
  rcases reply with fault | body
  · rfl
  · rw [fetch, run_bind_apply, fetched]
    change (match decode? reply? body with
      | some reply => (Pure.pure reply : ExceptT Fault Exchange α)
      | none => throw (undecodable path)).run rest = _
    cases decode? reply? body <;> rfl

/-- A read is one request, with any server. -/
theorem fetch_ends (server : Server Request Reply) (reply? : Json → Option α)
    (path caller : String) : Ends server (fetch reply? path caller).run [.get path caller]
      (fetched reply? path (server [] (.get path caller))) :=
  ⟨[server [] (.get path caller)], .ask .start rfl, fun more => fetch_run_cons _ _ _ _ more⟩

theorem fetch_yields (answer : Method → String → Reply) (reply? : Json → Option α)
    (path caller : String) :
    Yields (byPath answer) (fetch reply? path caller).run
      (fetched reply? path (answer .get path)) :=
  ⟨_, fetch_ends _ _ _ _⟩

/-! ## What operations report -/

/-- The modules and the suffix of an application in which hostnames name their
module, as the operations over a transport report them. -/
structure Reports (answer : Method → String → Reply) (project : String) (names : List String)
    (suffix : String) : Prop where
  modules : Yields (byPath answer) (listModules project).run (.ok names)
  several : names ≠ [defaultModule]
  application : ∃ caller, Yields (byPath answer)
    (fetch defaultHostname? (Path.application project).write caller).run (.ok (some suffix))
  suffix_ne : suffix ≠ ""

variable {project : String} {names versions : List String} {suffix : String}

/-- Hostnames are addressed among the modules and with the suffix reported. -/
theorem Reports.hostname_yields (h : Reports answer project names suffix) {q : HostnameQuery}
    {outcome : Except Failure String}
    (haddress : Yields (byPath answer) (q.address (topology project) names suffix).run outcome) :
    Yields (byPath answer) (hostname project q).run outcome := by
  have hforgetful := byPath_forgetful answer
  have hsuffix : Yields (byPath answer) (topology project).suffix.run (.ok suffix) := by
    -- The reply is the one that some operation has been given, so it is read alike.
    obtain ⟨caller, happlication⟩ := h.application
    have hfetched := fetch_yields answer defaultHostname? (Path.application project).write
    rw [(hfetched caller).unique happlication] at hfetched
    refine .run_bind hforgetful (hfetched hostnameCaller) ?_
    have hreported : suffix? project (some suffix) = .ok suffix := by
      simp [suffix?, Option.filter, h.suffix_ne]
    rw [hreported]
    exact Yields.pure _ _
  have hmodules : Yields (byPath answer) (HostnameQuery.read (topology project).moduleNames).run
      (.ok names) :=
    names_yields (servicesListing project "get_modules") (servicesListing project hostnameCaller)
      rfl rfl h.modules
  refine .run_bind hforgetful hmodules ?_
  exact .run_bind hforgetful (hsuffix.map (Except.mapError (Fault.classify .module))) haddress

/-! ### Instances -/

/-- What a version is read to be, for whichever operation. -/
def versionRead (answer : Method → String → Reply) (project module version : String) :
    Except Fault VersionReply :=
  let path := (Path.version project module version).write
  fetched (VersionReply.ofJson? 1) path (answer .get path)

theorem version_yields (answer : Method → String → Reply) (project module version caller : String) :
    Yields (byPath answer) (Admin.version project module version caller).run
      (versionRead answer project module version) :=
  fetch_yields _ _ _ _

theorem instanceCount_yields (answer : Method → String → Reply) (project module version : String) :
    Yields (byPath answer) (instanceCount project module version).run
      (match versionRead answer project module version with
        | .error fault => .error (fault.classify .module)
        | .ok reply => manualCount module version reply.scaling) := by
  have hread := (version_yields answer project module version "get_num_instances").map
    (Except.mapError (Fault.classify .module))
  generalize versionRead answer project module version = r at hread ⊢
  rcases r with fault | reply
  · exact hread.run_bind_error
  · exact .run_bind (byPath_forgetful answer) hread (Yields.pure _ _)

/-- No read of a version fails in the way of one that is not scaled by hand. -/
theorem notManuallyScaled_ne_classify (fault : Fault) (module version : String) :
    .notManuallyScaled module version ≠ fault.classify .module := by
  intro h
  cases fault with
  | http status detail =>
    simp only [Fault.classify, Fault.classifyStatus, Failure.notManuallyScaled] at h
    grind
  | rpc code detail =>
    simp only [Fault.classify, Failure.notManuallyScaled] at h
    split at h <;> cases h
  | _ => cases h

theorem manualCount_eq_ok {module version : String} {scaling : Scaling} {count : UInt32} :
    manualCount module version scaling = .ok count ↔ scaling.manualInstances = some count := by
  unfold manualCount
  cases scaling.manualInstances <;> simp

theorem manualCount_eq_error {module version : String} {scaling : Scaling} {failure : Failure} :
    manualCount module version scaling = .error failure ↔
      scaling.manualInstances = none ∧ .notManuallyScaled module version = failure := by
  unfold manualCount
  cases scaling.manualInstances <;> simp

/-- What is told of a count beside the failures of a read is told of a version
that was read. -/
theorem versionRead_of_instanceCount {module version : String} {outcome : Except Failure UInt32}
    (h : Yields (byPath answer) (instanceCount project module version).run outcome)
    (hread : ∀ fault : Fault, outcome ≠ .error (fault.classify .module)) :
    ∃ reply, versionRead answer project module version = .ok reply ∧
      manualCount module version reply.scaling = outcome := by
  have hunique := (instanceCount_yields answer project module version).unique h
  cases hversion : versionRead answer project module version with
  | error fault =>
    rw [hversion] at hunique
    exact absurd hunique.symm (hread fault)
  | ok reply =>
    rw [hversion] at hunique
    exact ⟨reply, rfl, hunique⟩

/-- The hostname of an instance is looked up where its count is. -/
theorem Reports.indexed_yields (h : Reports answer project names suffix) {q : HostnameQuery}
    (hmem : q.module ∈ names) {version : String} (hversion : q.versionName = .ok version)
    {i : UInt32} (hindex : q.index = some i) {reply : VersionReply}
    (hread : versionRead answer project q.module version = .ok reply) :
    Yields (byPath answer) (hostname project q).run
      (q.instanceName suffix version i reply.scaling) := by
  have hforgetful := byPath_forgetful answer
  have hreply := version_yields answer project q.module version hostnameCaller
  rw [hread] at hreply
  have hdetails : Yields (byPath answer) ((topology project).versionDetails q.module version).run
      (.ok (reply.details q.module)) := .run_bind hforgetful hreply (Yields.pure _ _)
  have hread : Yields (byPath answer)
      (HostnameQuery.read ((topology project).versionDetails q.module version)).run
      (.ok (reply.details q.module)) := hdetails.map (Except.mapError (Fault.classify .module))
  refine h.hostname_yields ?_
  obtain ⟨module, selector, index⟩ := q
  subst hindex
  unfold HostnameQuery.address
  rw [if_neg (not_not_intro hmem), if_neg h.several]
  refine .run_bind (a := version) hforgetful ?_ (.run_bind hforgetful hread (Yields.pure _ _))
  rw [hversion]
  exact Yields.pure _ _

theorem Reports.instance_yields (h : Reports answer project names suffix) {module version : String}
    (hmem : module ∈ names) {reply : VersionReply}
    (hread : versionRead answer project module version = .ok reply) (i : UInt32) :
    Yields (byPath answer) (hostname project ⟨module, .explicit version, some i⟩).run
      (HostnameQuery.instanceName ⟨module, .explicit version, some i⟩ suffix version i
        reply.scaling) :=
  h.indexed_yields (q := ⟨module, .explicit version, some i⟩) hmem rfl rfl hread

/-- The hostname of the module's own version, if the listing has it. -/
theorem Reports.current_yields (h : Reports answer project names suffix) {module : String}
    (hmem : module ∈ names)
    (hversions : Yields (byPath answer) (listVersions project module).run (.ok versions))
    (current : Option String) :
    Yields (byPath answer) (hostname project ⟨module, .current current, none⟩).run
      (.ok (HostnameQuery.currentName ⟨module, .current current, none⟩ suffix current
        versions)) := by
  have hread : Yields (byPath answer)
      (HostnameQuery.read ((topology project).versionNames module)).run (.ok versions) :=
    names_yields (versionsListing project module "get_versions")
      (versionsListing project module hostnameCaller) rfl rfl hversions
  refine h.hostname_yields ?_
  unfold HostnameQuery.address
  rw [if_neg (not_not_intro hmem), if_neg h.several]
  exact .run_bind (byPath_forgetful answer) hread (Yields.pure _ _)

/-! ## Agreement -/

open HostnameQuery (join segment)

/-- **Hostnames agree with the reports** of the other operations about the same
application. -/
structure HostnamesAgree (answer : Method → String → Reply) (project : String)
    (names : List String) (suffix : String) : Prop where
  /-- A module that is not listed is invalid. -/
  absent : ∀ q : HostnameQuery, q.module ∉ names →
    Yields (byPath answer) (hostname project q).run (.error (.moduleNotFound q.module))
  /-- The instances of a version are those below its count. -/
  counted : ∀ module ∈ names, ∀ version count,
    Yields (byPath answer) (instanceCount project module version).run (.ok count) → ∀ i,
    Yields (byPath answer) (hostname project ⟨module, .explicit version, some i⟩).run
      (if i < count then .ok (join [segment i, version, module, suffix])
      else .error (.instanceNotFound i module version))
  /-- Where there is no count because of how a version is scaled, there are no
  instances. -/
  unscaled : ∀ module ∈ names, ∀ version,
    Yields (byPath answer) (instanceCount project module version).run
      (.error (.notManuallyScaled module version)) → ∀ i,
    Yields (byPath answer) (hostname project ⟨module, .explicit version, some i⟩).run
      (.error .noInstanceNames)
  /-- The caller's version is named if and only if it is listed. -/
  current : ∀ module ∈ names, ∀ versions,
    Yields (byPath answer) (listVersions project module).run (.ok versions) → ∀ version,
    (Yields (byPath answer) (hostname project ⟨module, .current (some version), none⟩).run
      (.ok (join [version, module, suffix])) ↔ version ∈ versions) ∧
    (version ∉ versions →
      Yields (byPath answer) (hostname project ⟨module, .current (some version), none⟩).run
        (.ok (join [module, suffix])))

theorem join_ne (version module suffix : String) :
    join [version, module, suffix] ≠ join [module, suffix] := by
  intro h
  have := congrArg String.length h
  simp [join] at this

/-- **Hostnames agree with what the other operations report**, over any
transport whose replies hang on the method and the path alone. -/
theorem hostnames_agree {answer : Method → String → Reply} {project : String}
    {names : List String} {suffix : String} (h : Reports answer project names suffix) :
    HostnamesAgree answer project names suffix where
  absent q hmem := by
    refine h.hostname_yields ?_
    unfold HostnameQuery.address
    rw [if_pos hmem]
    exact Yields.pure _ _
  counted module hmem version count hcount i := by
    obtain ⟨reply, hread, hreply⟩ := versionRead_of_instanceCount hcount nofun
    have hinstance := h.instance_yields hmem hread i
    simp only [HostnameQuery.instanceName, manualCount_eq_ok.1 hreply] at hinstance
    by_cases hlt : i < count
    · rw [if_neg (UInt32.not_le.2 hlt)] at hinstance
      rwa [if_pos hlt]
    · rw [if_pos (UInt32.not_lt.1 hlt)] at hinstance
      rwa [if_neg hlt]
  unscaled module hmem version hcount i := by
    obtain ⟨reply, hread, hreply⟩ := versionRead_of_instanceCount hcount fun fault he =>
      notManuallyScaled_ne_classify fault module version (Except.error.inj he)
    have hinstance := h.instance_yields hmem hread i
    simpa only [HostnameQuery.instanceName, (manualCount_eq_error.1 hreply).1] using hinstance
  current module hmem versions hversions version := by
    have hcurrent := h.current_yields hmem hversions (some version)
    simp only [HostnameQuery.currentName] at hcurrent
    by_cases hlisted : version ∈ versions
    · rw [if_pos hlisted] at hcurrent
      exact ⟨⟨fun _ => hlisted, fun _ => hcurrent⟩, fun hnot => absurd hlisted hnot⟩
    · rw [if_neg hlisted] at hcurrent
      refine ⟨⟨fun hyields => ?_, fun hin => absurd hin hlisted⟩, fun _ => hcurrent⟩
      exact absurd (Except.ok.inj (hyields.unique hcurrent)) (join_ne version module suffix)

/-- An application of two modules; a version of one has three instances. -/
def twoModules : Method → String → Reply
  | .get, "apps/demo" => .ok (Utf8.encode "[\"demo.test\"]")
  | .get, "apps/demo/services" => .ok (Utf8.encode "[[[\"default\"],[\"api\"]],null]")
  | .get, "apps/demo/services/api/versions/v1?view=FULL" =>
    .ok (Utf8.encode "[\"v1\",[3],null]")
  | _, _ => .error (.http 404 "Not found.")

theorem versionRead_twoModules :
    versionRead twoModules "demo" "api" "v1" = .ok ⟨"v1", some 3, false⟩ := by
  have hpath : (Path.version "demo" "api" "v1").write =
      "apps/demo/services/api/versions/v1?view=FULL" := rfl
  have hbody : decode? (VersionReply.ofJson? 1) (Utf8.encode "[\"v1\",[3],null]") =
      some ⟨"v1", some 3, false⟩ := by cbv
  simp only [versionRead, hpath, twoModules, fetched, hbody]

theorem reports_twoModules : Reports twoModules "demo" ["default", "api"] "demo.test" where
  modules := by
    have hpage : Shows servicesPage? (Utf8.encode "[[[\"default\"],[\"api\"]],null]")
        ⟨[⟨"default", none⟩, ⟨"api", none⟩], none⟩ := ⟨_, by cbv, rfl, rfl⟩
    have hserves : Cut.Serves ⟨[], [⟨"default", none⟩, ⟨"api", none⟩], by decide, by decide⟩
        (servicesListing "demo" "get_modules") (byPath twoModules) := by
      intro past
      exact List.forall_mem_singleton.2 ⟨_, rfl, hpage⟩
    exact ⟨_, listModules_ends hserves⟩
  several := by decide
  application := by
    refine ⟨"", ?_⟩
    have hpath : (Path.application "demo").write = "apps/demo" := rfl
    have hbody : decode? defaultHostname? (Utf8.encode "[\"demo.test\"]") =
        some (some "demo.test") := by cbv
    have hfetch := fetch_yields twoModules defaultHostname? (Path.application "demo").write ""
    simpa only [hpath, twoModules, fetched, hbody] using hfetch
  suffix_ne := by decide

theorem hostnames_agree_two_modules :
    Reports twoModules "demo" ["default", "api"] "demo.test" ∧
    Yields (byPath twoModules) (instanceCount "demo" "api" "v1").run (.ok 3) ∧
    Yields (byPath twoModules) (hostname "demo" ⟨"api", .explicit "v1", some 2⟩).run
      (.ok "2.v1.api.demo.test") ∧
    Yields (byPath twoModules) (hostname "demo" ⟨"api", .explicit "v1", some 3⟩).run
      (.error (.invalidInstances "instance 3 does not exist for api/v1")) := by
  have hcount := instanceCount_yields twoModules "demo" "api" "v1"
  rw [versionRead_twoModules] at hcount
  have hagree := (hostnames_agree reports_twoModules).counted "api" (by decide) "v1" 3 hcount
  exact ⟨reports_twoModules, hcount, hagree 2, hagree 3⟩

end ControlPlane.Admin
