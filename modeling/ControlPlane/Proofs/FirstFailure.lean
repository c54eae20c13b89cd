/-
The first failure of a call to the admin API. A flawed reply is the last of its
call and decides the outcome. A call without one fails only for what its
replies say: that a page is to be read twice, or that there is no such thing as
was asked for; and then it is of no use to try again.
-/
import ControlPlane.Proofs.DefaultVersion
import ControlPlane.Proofs.Flaw

namespace ControlPlane

open Dialogue Exchange

/-! ## Decisions -/

namespace TrafficSplit

theorem resolveDefault_eq_error {split : TrafficSplit} {module : String}
    {failure : Failure} (h : split.resolveDefault module = .error failure) :
    split.isEmpty = true ∧ failure = .noTraffic module := by
  rw [resolveDefault] at h
  cases hdefault : split.default? with
  | some version => rw [hdefault] at h; cases h
  | none =>
    rw [hdefault] at h
    cases h
    rw [isEmpty, (defaultFrom_eq_none.1 hdefault).2]
    exact ⟨rfl, rfl⟩

end TrafficSplit

namespace HostnameQuery

variable {q : HostnameQuery} {suffix version : String} {failure : Failure}

theorem versionName_eq_ok : q.versionName = .ok version ↔ q.version.name = some version := by
  rw [versionName]
  cases q.version.name <;> simp

theorem versionName_eq_error (h : q.versionName = .error failure) :
    q.version.name = none ∧ failure = .unknownVersion q.module := by
  rw [versionName] at h
  cases hname : q.version.name <;> rw [hname] at h <;> cases h
  exact ⟨rfl, rfl⟩

theorem resolveSingle_eq_error (h : q.resolveSingle suffix = .error failure) :
    q.version.name = none ∧ failure = .unknownVersion q.module := by
  rw [resolveSingle] at h
  cases hversion : q.versionName with
  | error => rw [hversion] at h; cases h; exact versionName_eq_error hversion
  | ok version => rw [hversion] at h; cases hindex : q.index <;> rw [hindex] at h <;> cases h

theorem instanceName_eq_error {i : UInt32} {scaling : Scaling}
    (h : q.instanceName suffix version i scaling = .error failure) :
    scaling.manualInstances = none ∧ failure = .noInstanceNames ∨
    ∃ count, scaling.manualInstances = some count ∧ count ≤ i ∧
      failure = .instanceNotFound i q.module version := by
  rw [instanceName] at h
  cases hcount : scaling.manualInstances with
  | none =>
    rw [hcount] at h
    cases h
    exact .inl ⟨rfl, rfl⟩
  | some count =>
    simp only [hcount] at h
    by_cases hle : count ≤ i
    · rw [if_pos hle] at h
      cases h
      exact .inr ⟨count, rfl, hle, rfl⟩
    · rw [if_neg hle] at h
      cases h

end HostnameQuery

namespace Admin

variable {α β : Type} {project caller : String}

/-! ## Runs without a flaw -/

/-- No reply to these requests is flawed. -/
def Flawless (server : Server Request Reply) (made : List Request) : Prop :=
  ∀ before request after, made = before ++ request :: after →
    flaw request (server before request) = none

/-- A part of the run comes to `a`. -/
def Includes (server : Server Request Reply) (made : List Request) (x : ExceptT Fault Exchange α)
    (a : α) : Prop :=
  ∃ before middle after, made = before ++ (middle ++ after) ∧
    Ends (server.after before) x.run middle (.ok a)

/-- The last reply of the run hands out a token whose page has been asked for. -/
def Repeats (server : Server Request Reply) (made : List Request) (l : Listing α) (token : String) :
    Prop :=
  ∃ before last, made = before ++ [last] ∧ l.token? (server before last) = some token ∧
    l.request (some token) ∈ made

variable {server : Server Request Reply} {made made₁ made₂ : List Request}

theorem Flawless.right (h : Flawless server (made₁ ++ made₂)) :
    Flawless (server.after made₁) made₂ :=
  fun before request after hmade => h (made₁ ++ before) request after (by simp [hmade])

theorem Repeats.append {l : Listing α} {token : String}
    (h : Repeats (server.after made₁) made₂ l token) : Repeats server (made₁ ++ made₂) l token := by
  obtain ⟨before, last, rfl, htoken, hmem⟩ := h
  exact ⟨made₁ ++ before, last, (List.append_assoc ..).symm, htoken, List.mem_append_right _ hmem⟩

theorem Includes.whole {x : ExceptT Fault Exchange α} {a : α} (h : Ends server x.run made (.ok a)) :
    Includes server made x a :=
  ⟨[], made, [], by simp, h⟩

theorem Includes.append {x : ExceptT Fault Exchange α} {a : α}
    (h : Includes (server.after made₁) made₂ x a) : Includes server (made₁ ++ made₂) x a := by
  obtain ⟨before, middle, after, rfl, h⟩ := h
  rw [Server.after_append] at h
  exact ⟨made₁ ++ before, middle, after, (List.append_assoc ..).symm, h⟩

/-- What is told of a token that is handed out twice. -/
def repeated (base : Path) (token : String) : Failure :=
  .generic s!"GET {base.write}: page token '{token}' returned twice" none

/-- Without a flaw a walk fails only at a token that is handed out twice. -/
theorem walk_flawless {l : Listing α} (hunread : l.FlawedUnread)
    (hflawless : Flawless server made) {fault} (h : Ends server l.walk.run made (.error fault)) :
    ∃ token, Repeats server made l token ∧ fault = l.repeatedToken token := by
  obtain ⟨made', received, items, tokens, hr, hw, rfl, hfinishes⟩ := Listing.walk_finishes h
  have hlast := hflawless made' _ [] rfl
  have hmade := hw.made hr
  generalize hreply : server made' (l.request tokens.getLast?) = reply at hlast hfinishes
  cases hfinishes with
  | fault => rw [flaw_error] at hlast; cases hlast
  | undecodable hpage => rw [hunread, hpage] at hlast; cases hlast
  | @repeated body page token hpage hnext hseen =>
    refine ⟨token, ⟨made', _, rfl, ?_, ?_⟩, rfl⟩
    · rw [hreply, Listing.token?, hpage]
      exact hnext
    · rw [hmade]
      exact Listing.mem_requests.2 hseen

theorem fetch_flawless {reply? : Json → Option α} {r : Resource} (hreads : r.ReadBy reply?)
    (hflawless : Flawless server made) {fault} :
    ¬ Ends server (fetch reply? (r.path project).write caller).run made (.error fault) := by
  intro h
  obtain ⟨rfl, hfetched⟩ := h.unique (fetch_ends ..)
  obtain ⟨a, ha⟩ := (fetched_of_flaw hreads).2 (hflawless [] _ [] rfl)
  cases hfetched.trans ha

/-- What the reply to a change comes to. -/
def patched : Reply → Except Failure Unit
  | .error fault => .error (fault.classify .version)
  | .ok _ => .ok ()

/-- A change is one request. -/
theorem patch_ends (server : Server Request Reply) (project module version : String)
    (change : Patch) (caller : String) :
    let request : Request :=
      .patch (Path.versionPatch project module version change.mask).write change.body caller
    Ends server (patch project module version change caller).run [request]
      (patched (server [] request)) := by
  intro request
  refine ⟨[server [] request], .ask .start rfl, fun more => ?_⟩
  cases server [] request <;> rfl

theorem patch_flawless {module version : String} {change : Patch} (hflawless : Flawless server made)
    {failure} :
    ¬ Ends server (patch project module version change caller).run made (.error failure) := by
  intro h
  obtain ⟨rfl, houtcome⟩ := h.unique (patch_ends ..)
  have hlast := hflawless [] _ [] rfl
  unfold patched at houtcome
  split at houtcome
  · next hreply => rw [hreply, flaw_error] at hlast; cases hlast
  · cases houtcome

/-! ## What the replies say -/

/-- Why a hostname has no address among these modules. -/
inductive Unaddressed (project : String) (server : Server Request Reply) (made : List Request)
    (q : HostnameQuery) (names : List String) : Failure → Prop
  | absent : q.module ∉ names → Unaddressed project server made q names (.moduleNotFound q.module)
  | unversioned : q.version.name = none → names = [defaultModule] ∨ q.index ≠ none →
      Unaddressed project server made q names (.unknownVersion q.module)
  | unscaled {i version reply} : q.index = some i → q.version.name = some version →
      Includes server made (Admin.version project q.module version hostnameCaller) reply →
      reply.scaling.manualInstances = none →
      Unaddressed project server made q names .noInstanceNames
  | outOfRange {i version reply count} : q.index = some i → q.version.name = some version →
      Includes server made (Admin.version project q.module version hostnameCaller) reply →
      reply.scaling.manualInstances = some count → count ≤ i →
      Unaddressed project server made q names (.instanceNotFound i q.module version)
  | repeated {token} : Repeats server made (versionsListing project q.module hostnameCaller) token →
      Unaddressed project server made q names (repeated (.versions project q.module) token)

/-- Why a call fails though each reply to it can be used. -/
inductive Rejects (project : String) (server : Server Request Reply) (made : List Request) :
    Backend.Call → Failure → Prop
  | modules {token} : Repeats server made (servicesListing project "get_modules") token →
      Rejects project server made .listModules (repeated (.services project) token)
  | versions {module token} :
      Repeats server made (versionsListing project module "get_versions") token →
      Rejects project server made (.listVersions module) (repeated (.versions project module) token)
  /-- A split without a version. -/
  | noTraffic {module service} : Includes server made
        (fetch Service.ofJson? (Path.service project module).write "get_default_version") service →
      service.traffic.isEmpty = true →
      Rejects project server made (.defaultVersion module) (.noTraffic module)
  | notManuallyScaled {module version reply} :
      Includes server made (Admin.version project module version "get_num_instances") reply →
      reply.scaling.manualInstances = none →
      Rejects project server made (.instanceCount module version)
        (.notManuallyScaled module version)
  | hostnameModules {q token} :
      Repeats server made (servicesListing project hostnameCaller) token →
      Rejects project server made (.hostname q) (repeated (.services project) token)
  /-- An application has to report a default hostname, and not an empty one. -/
  | unsuffixed {q reported} : Includes server made
        (fetch defaultHostname? (Path.application project).write hostnameCaller) reported →
      reported = none ∨ reported = some "" → Rejects project server made (.hostname q)
        (.generic s!"application '{project}' reports no defaultHostname" none)
  | unaddressed {q found failure} :
      Includes server made (services project hostnameCaller) found →
      Unaddressed project server made q (found.map Service.id) failure →
      Rejects project server made (.hostname q) failure

theorem Unaddressed.append {q : HostnameQuery} {names : List String} {failure : Failure}
    (h : Unaddressed project (server.after made₁) made₂ q names failure) :
    Unaddressed project server (made₁ ++ made₂) q names failure := by
  cases h with
  | absent h => exact .absent h
  | unversioned hname h => exact .unversioned hname h
  | unscaled hindex hname hread h => exact .unscaled hindex hname hread.append h
  | outOfRange hindex hname hread h hcount => exact .outOfRange hindex hname hread.append h hcount
  | repeated h => exact .repeated h.append

/-- None of these may pass by itself. -/
theorem Rejects.isRetryable {call : Backend.Call} {failure : Failure}
    (h : Rejects project server made call failure) : failure.isRetryable = false := by
  cases h with
  | unaddressed _ h => cases h <;> rfl
  | _ => rfl

/-! ## Calls without a flaw -/

section

variable {l : Listing α} {name : α → String} {missing : Missing}

theorem names_steady :
    Steady (ExceptT.adapt (Fault.classify missing) do pure ((← l.walk).map name)).run :=
  (FailsAs.adapt _ ((Listing.walk_failsAs l).bind fun _ => .decided (.ok _))).steady

theorem names_flawless (hunread : l.FlawedUnread) (hflawless : Flawless server made) {failure}
    (h : Ends server (ExceptT.adapt (Fault.classify missing) do pure ((← l.walk).map name)).run
      made (.error failure)) :
    ∃ token, Repeats server made l token ∧ failure = repeated l.base token := by
  rw [names_run] at h
  obtain ⟨fault | found, hwalk, houtcome⟩ := h.of_map l.walk_steady <;> cases houtcome
  obtain ⟨token, hrepeats, rfl⟩ := walk_flawless hunread hflawless hwalk
  exact ⟨token, hrepeats, rfl⟩

theorem names_found {names : List String}
    (h : Ends server (ExceptT.adapt (Fault.classify missing) do pure ((← l.walk).map name)).run
      made (.ok names)) :
    ∃ found, Ends server l.walk.run made (.ok found) ∧ names = found.map name := by
  rw [names_run] at h
  obtain ⟨fault | found, hwalk, houtcome⟩ := h.of_map l.walk_steady <;> cases houtcome
  exact ⟨found, hwalk, rfl⟩

end

/-- A read with a decision on what it comes to. -/
theorem read_flawless {reply? : Json → Option α} {r : Resource} (hreads : r.ReadBy reply?)
    (hflawless : Flawless server made) {missing : Missing} {g : α → Except Failure β} {outcome}
    (h : Ends server (ExceptT.adapt (Fault.classify missing)
      (fetch reply? (r.path project).write caller) >>= fun a => ExceptT.mk (pure (g a))).run
      made outcome) :
    ∃ a, Includes server made (fetch reply? (r.path project).write caller) a ∧ outcome = g a := by
  have hsteady := (fetch_failsAs reply? (r.path project).write caller).steady
  rcases h.of_run_decided (FailsAs.adapt _ (fetch_failsAs _ _ _)).steady with
    ⟨failure, -, h⟩ | ⟨a, rfl, hread⟩
  · obtain ⟨fault | a, h, hmap⟩ := h.of_adapt hsteady
    · exact absurd h (fetch_flawless hreads hflawless)
    · cases hmap
  · obtain ⟨fault | a, h, hmap⟩ := hread.of_adapt hsteady <;> cases hmap
    exact ⟨a, .whole h, rfl⟩

/-- A decision on what is read, told as a failure. -/
theorem adapt_read_flawless {reply? : Json → Option α} {r : Resource} (hreads : r.ReadBy reply?)
    (hflawless : Flawless server made) {missing : Missing} {g : α → Except Fault β} {outcome}
    (h : Ends server (ExceptT.adapt (Fault.classify missing)
      (fetch reply? (r.path project).write caller >>= fun a => ExceptT.mk (pure (g a)))).run
      made outcome) :
    ∃ a, Includes server made (fetch reply? (r.path project).write caller) a ∧
      outcome = (g a).mapError (Fault.classify missing) := by
  have hsteady := (fetch_failsAs reply? (r.path project).write caller).steady
  obtain ⟨r, hread, rfl⟩ := h.of_adapt (hsteady.run_bind fun a => Steady.pure (g a))
  rcases hread.of_run_decided hsteady with ⟨fault, -, hfetch⟩ | ⟨a, rfl, hfetch⟩
  · exact absurd hfetch (fetch_flawless hreads hflawless)
  · exact ⟨a, .whole hfetch, rfl⟩

theorem instance_flawless {q : HostnameQuery} {names : List String} {suffix : String} {i : UInt32}
    (hindex : q.index = some i) (hflawless : Flawless server made) {failure}
    (h : Ends server (do
      let version ← HostnameQuery.liftExcept q.versionName
      let details ← HostnameQuery.read ((topology project).versionDetails q.module version)
      HostnameQuery.liftExcept (q.instanceName suffix version i details.scaling)).run
      made (.error failure)) :
    Unaddressed project server made q names failure := by
  cases hversion : q.versionName with
  | error failure' =>
    rw [hversion] at h
    obtain ⟨hname, rfl⟩ := HostnameQuery.versionName_eq_error hversion
    obtain ⟨-, h⟩ := h.unique (Ends.pure _ _)
    cases h
    exact .unversioned hname (.inr (by simp [hindex]))
  | ok version =>
    rw [hversion] at h
    have hname : q.version.name = some version := HostnameQuery.versionName_eq_ok.1 hversion
    change Ends server (HostnameQuery.read ((topology project).versionDetails q.module version) >>=
      fun details => HostnameQuery.liftExcept
        (q.instanceName suffix version i details.scaling)).run made (.error failure) at h
    have hsteady : Steady
        (HostnameQuery.read ((topology project).versionDetails q.module version)).run :=
      (FailsAs.adapt _ ((fetch_failsAs _ _ _).bind fun _ => .decided (.ok _))).steady
    rcases h.of_run_decided hsteady with ⟨failure', -, h⟩ | ⟨details, hdecided, h⟩ <;>
      obtain ⟨reply, hreply, hok⟩ := adapt_read_flawless (r := .version q.module version)
        (g := fun reply => .ok (reply.details q.module)) (fun _ => rfl) hflawless h <;>
      cases hok
    rcases HostnameQuery.instanceName_eq_error hdecided.symm with
      ⟨hcount, rfl⟩ | ⟨count, hcount, hle, rfl⟩
    · exact .unscaled hindex hname hreply hcount
    · exact .outOfRange hindex hname hreply hcount hle

theorem current_flawless {q : HostnameQuery} {names : List String} {suffix : String}
    {current : Option String} (hflawless : Flawless server made) {failure}
    (h : Ends server (do
      let versions ← HostnameQuery.read ((topology project).versionNames q.module)
      pure (q.currentName suffix current versions)).run made (.error failure)) :
    Unaddressed project server made q names failure := by
  rcases h.of_run_decided (g := fun versions => .ok (q.currentName suffix current versions))
    names_steady with ⟨_, hfails, h⟩ | ⟨versions, hok, -⟩
  · cases hfails
    obtain ⟨token, hrepeats, rfl⟩ := names_flawless
      (versionsListing_flawedUnread project q.module hostnameCaller) hflawless h
    exact .repeated hrepeats
  · cases hok

theorem address_flawless {q : HostnameQuery} {names : List String} {suffix : String}
    (hflawless : Flawless server made) {failure}
    (h : Ends server (q.address (topology project) names suffix).run made (.error failure)) :
    Unaddressed project server made q names failure := by
  unfold HostnameQuery.address at h
  by_cases hmem : q.module ∈ names
  case neg =>
    rw [if_pos hmem] at h
    obtain ⟨-, h⟩ := h.unique (Ends.pure _ _)
    cases h
    exact .absent hmem
  rw [if_neg (not_not_intro hmem)] at h
  by_cases hsingle : names = [defaultModule]
  · rw [if_pos hsingle] at h
    obtain ⟨-, h⟩ := h.unique (Ends.pure _ _)
    obtain ⟨hname, rfl⟩ := HostnameQuery.resolveSingle_eq_error h.symm
    exact .unversioned hname (.inl hsingle)
  rw [if_neg hsingle] at h
  cases hindex : q.index with
  | some i =>
    rw [hindex] at h
    exact instance_flawless hindex hflawless h
  | none =>
    rw [hindex] at h
    cases hversion : q.version with
    | explicit version =>
      rw [hversion] at h
      obtain ⟨-, h⟩ := h.unique (Ends.pure _ _)
      cases h
    | current current =>
      rw [hversion] at h
      exact current_flawless hflawless h

theorem suffix?_eq_error {reported : Option String} {fault : Fault}
    (h : suffix? project reported = .error fault) : (reported = none ∨ reported = some "") ∧
      fault = .decode s!"application '{project}' reports no defaultHostname" := by
  rw [suffix?] at h
  cases hreported : reported.filter (· ≠ "") with
  | some suffix => rw [hreported] at h; cases h
  | none =>
    rw [hreported] at h
    cases h
    exact ⟨Listing.next_filter_eq_none.1 hreported, rfl⟩

theorem resolve_flawless {q : HostnameQuery} (hflawless : Flawless server made) {failure}
    (h : Ends server (hostname project q).run made (.error failure)) :
    Rejects project server made (.hostname q) failure := by
  have hsteady : Steady (HostnameQuery.read (topology project).suffix).run :=
    (FailsAs.adapt _ ((fetch_failsAs _ _ _).bind fun _ => .decided _)).steady
  rcases h.of_run_bind names_steady with
    ⟨_, hfails, h⟩ | ⟨names, made₁, made₂, rfl, hread, h⟩
  · cases hfails
    obtain ⟨token, hrepeats, rfl⟩ := names_flawless
      (servicesListing_flawedUnread project hostnameCaller) hflawless h
    exact .hostnameModules hrepeats
  obtain ⟨found, hfound, rfl⟩ := names_found (l := servicesListing project hostnameCaller) hread
  rcases h.of_run_bind hsteady with ⟨_, hfails, h⟩ | ⟨suffix, made₂, made₃, rfl, hread, h⟩
  · cases hfails
    obtain ⟨reported, hreported, hfails⟩ := adapt_read_flawless (r := .application) (fun _ => rfl)
      hflawless.right h
    cases hsuffix : suffix? project reported with
    | ok suffix => rw [hsuffix] at hfails; cases hfails
    | error fault =>
      rw [hsuffix] at hfails
      cases hfails
      obtain ⟨hmissing, rfl⟩ := suffix?_eq_error hsuffix
      exact .unsuffixed hreported.append hmissing
  · have hincludes : Includes server (made₁ ++ (made₂ ++ made₃)) (services project hostnameCaller)
        found := ⟨[], made₁, made₂ ++ made₃, rfl, hfound⟩
    exact .unaddressed hincludes (address_flawless hflawless.right.right h).append.append

/-- Without a flaw a call fails only for what the replies say. -/
theorem perform_flawless {call : Backend.Call} (hflawless : Flawless server made) {failure}
    (h : Ends server ((backend project).perform call).run made (.error failure)) :
    Rejects project server made call failure := by
  cases call with
  | listModules =>
    obtain ⟨_ | names, h, hmap⟩ := h.of_run_map names_steady <;> cases hmap
    obtain ⟨token, hrepeats, rfl⟩ := names_flawless
      (servicesListing_flawedUnread project "get_modules") hflawless h
    exact .modules hrepeats
  | listVersions module =>
    obtain ⟨_ | names, h, hmap⟩ := h.of_run_map names_steady <;> cases hmap
    obtain ⟨token, hrepeats, rfl⟩ := names_flawless
      (versionsListing_flawedUnread project module "get_versions") hflawless h
    exact .versions hrepeats
  | defaultVersion module =>
    obtain ⟨_ | version, h, hmap⟩ := h.of_run_map (x := defaultVersion project module)
      ((FailsAs.adapt _ (fetch_failsAs _ _ _)).bind fun _ => .decided _).steady <;>
      cases hmap
    obtain ⟨service, hservice, hdefault⟩ := read_flawless (r := .service module) (fun _ => rfl)
      hflawless h
    obtain ⟨hempty, rfl⟩ := TrafficSplit.resolveDefault_eq_error hdefault.symm
    exact .noTraffic hservice hempty
  | instanceCount module version =>
    obtain ⟨_ | count, h, hmap⟩ := h.of_run_map (x := instanceCount project module version)
      ((FailsAs.adapt _ (fetch_failsAs _ _ _)).bind fun _ => .decided _).steady <;>
      cases hmap
    obtain ⟨reply, hreply, hcount⟩ := read_flawless (r := .version module version) (fun _ => rfl)
      hflawless h
    obtain ⟨hscaling, rfl⟩ := manualCount_eq_error.1 hcount.symm
    exact .notManuallyScaled hreply hscaling
  | setInstanceCount =>
    obtain ⟨_ | _, h, hmap⟩ := h.of_run_map (patch_failsAs _ _ _ _ _).steady <;> cases hmap
    exact absurd h (patch_flawless hflawless)
  | setServingStatus =>
    obtain ⟨_ | _, h, hmap⟩ := h.of_run_map (patch_failsAs _ _ _ _ _).steady <;> cases hmap
    exact absurd h (patch_flawless hflawless)
  | hostname q =>
    obtain ⟨_ | _, h, hmap⟩ := h.of_run_map (hostname_failsAs project q).steady <;> cases hmap
    exact resolve_flawless hflawless h

/-! ## The first failure -/

/-- A flaw is the last of a run. -/
theorem flaw_last {call : Backend.Call} {outcome}
    (h : Ends server ((backend project).perform call).run made outcome)
    {before request after fault} (hmade : made = before ++ request :: after)
    (hflaw : flaw request (server before request) = some fault) :
    after = [] ∧ outcome = .error (fault.classify call.missing) := by
  obtain ⟨received, hr, -⟩ := id h
  obtain ⟨received', hr', hask⟩ := hr.of_append hmade
  have hends := (perform_failsAtFlaw project call).ends hr' hask hflaw
  obtain ⟨hmade', houtcome⟩ := h.unique hends
  exact ⟨by simpa [hmade'] using hmade, houtcome⟩

/-- A call that fails does so for a flaw, or for what its replies say. -/
theorem flawed_or_rejects {call : Backend.Call} {failure}
    (h : Ends server ((backend project).perform call).run made (.error failure)) :
    (∃ before request fault, made = before ++ [request] ∧
      flaw request (server before request) = some fault ∧ failure = fault.classify call.missing) ∨
    Flawless server made ∧ Rejects project server made call failure := by
  by_cases hflawless : Flawless server made
  · exact .inr ⟨hflawless, perform_flawless hflawless h⟩
  · simp only [Flawless, not_forall, Option.ne_none_iff_exists'] at hflawless
    obtain ⟨before, request, after, hmade, fault, hflaw⟩ := hflawless
    obtain ⟨rfl, houtcome⟩ := flaw_last h hmade hflaw
    exact .inl ⟨before, request, fault, hmade, hflaw, Except.error.inj houtcome⟩

/-- What the first failure does to a call, with any server. -/
structure FirstFailureDecides (project : String) (call : Backend.Call)
    (server : Server Request Reply) : Prop where
  /-- A flawed reply ends the call there, as its flaw is classified. -/
  ends : ∀ ⦃made received request fault⦄,
    Reaches server ((backend project).perform call).run made received →
    ((backend project).perform call).run received = .error request →
    flaw request (server made request) = some fault →
    Ends server ((backend project).perform call).run (made ++ [request])
      (.error (fault.classify call.missing))
  /-- So nothing follows it. -/
  last : ∀ ⦃made outcome⦄, Ends server ((backend project).perform call).run made outcome →
    ∀ before request after fault, made = before ++ request :: after →
      flaw request (server before request) = some fault →
      after = [] ∧ outcome = .error (fault.classify call.missing)
  /-- Without one the call fails only for what the replies say. -/
  rejects : ∀ ⦃made failure⦄,
    Ends server ((backend project).perform call).run made (.error failure) →
    Flawless server made → Rejects project server made call failure
  retryable : ∀ ⦃made failure⦄,
    Ends server ((backend project).perform call).run made (.error failure) →
    (failure.isRetryable = true ↔ ∃ before request fault, made = before ++ [request] ∧
      flaw request (server before request) = some fault ∧ fault.MayPass)

/-- **The first failure decides.** Whatever a server of the admin API replies, a
request that fails or is answered by what cannot be read is the last of its
call, which fails as that fault is classified for it; and a call that may be
tried again is one that has met a fault that may pass. -/
theorem first_failure_decides (project : String) (call : Backend.Call)
    (server : Server Request Reply) : FirstFailureDecides project call server ∧
      ∀ fault, Fault.Classified call.missing fault (fault.classify call.missing) := by
  refine ⟨⟨fun _ _ _ _ hr hask hflaw => (perform_failsAtFlaw project call).ends hr hask hflaw,
    fun _ _ h _ _ _ _ => flaw_last h, fun _ _ h hflawless => perform_flawless hflawless h,
    fun made failure h => ?_⟩, Fault.classify_classified call.missing⟩
  constructor
  · intro hretry
    rcases flawed_or_rejects h with ⟨before, request, fault, hmade, hflaw, rfl⟩ | ⟨-, hrejects⟩
    · exact ⟨before, request, fault, hmade, hflaw,
        (Fault.classify_classified _ _).isRetryable.1 hretry⟩
    · rw [hrejects.isRetryable] at hretry
      cases hretry
  · rintro ⟨before, request, fault, hmade, hflaw, hpass⟩
    obtain ⟨-, hfailure⟩ := flaw_last h hmade hflaw
    cases hfailure
    exact (Fault.classify_classified _ _).isRetryable.2 hpass

end Admin
end ControlPlane
