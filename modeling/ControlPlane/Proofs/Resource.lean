/-
The resources that admin requests are for. A written path is read by cutting it
at its separators and decoding the pieces, and the reading gives back what the
path was made of, whatever the texts in it; so a path is the path of one
resource only, and no text can be written that turns it into another's.
-/
import ControlPlane.Proofs.Conditions
import ControlPlane.Proofs.Utf8

namespace ControlPlane

/-- A written piece is read back. -/
theorem Percent.decode?_encode (s : String) : decode? (encode s) = some s := by
  rw [decode?, encode, String.toList_ofList, decodeBytes?_encodeBytes, Option.bind_some,
    Utf8.decode_encode]

namespace Admin

namespace Path

/-! ## Reading paths -/

def readPiece? (piece : List Char) : Option String := Percent.decode? (String.ofList piece)

def readParameter? (parameter : List Char) : Option (String × String) :=
  match parameter.splitOn '=' with
  | [key, value] => do pure (← readPiece? key, ← readPiece? value)
  | _ => none

def readSegments? (front : List Char) : Option (List String) :=
  (front.splitOn '/').mapM readPiece?

def readQuery? (query : List Char) : Option (List (String × String)) :=
  (query.splitOn '&').mapM readParameter?

/-- Reads a path: the query is what follows the only `?`, if there is one. -/
def read? (s : String) : Option Path :=
  match s.toList.splitOn '?' with
  | [front] => do pure ⟨← readSegments? front, []⟩
  | [front, query] => do pure ⟨← readSegments? front, ← readQuery? query⟩
  | _ => none

/-- A path that has a segment, and keys that are written as they are. -/
structure Regular (p : Path) : Prop where
  segments : p.segments ≠ []
  keys : ∀ parameter ∈ p.query, Percent.encode parameter.1 = parameter.1

def parameterChars (parameter : String × String) : List Char :=
  pieceChars parameter.1 ++ '=' :: pieceChars parameter.2

def queryChars (query : List (String × String)) : List Char :=
  ['&'].intercalate (query.map parameterChars)

/-! ### Pieces and separators -/

theorem readPiece?_pieceChars (s : String) : readPiece? (pieceChars s) = some s := by
  rw [readPiece?, pieceChars, String.ofList_toList, Percent.decode?_encode]

theorem not_mem_pieceChars {c : Char} (hc : c ∈ Percent.separators) (s : String) :
    c ∉ pieceChars s :=
  Percent.not_mem_encode hc

theorem not_mem_parameterChars {c : Char} (hc : c ∈ Percent.separators) (hne : c ≠ '=')
    (parameter : String × String) : c ∉ parameterChars parameter := by
  simp only [parameterChars, List.mem_append, List.mem_cons, not_or]
  exact ⟨not_mem_pieceChars hc _, hne, not_mem_pieceChars hc _⟩

theorem not_mem_queryChars (query : List (String × String)) : '?' ∉ queryChars query := by
  intro h
  rcases mem_intercalate h with h | ⟨piece, hpiece, h⟩
  · cases h
  · obtain ⟨parameter, -, rfl⟩ := List.mem_map.1 hpiece
    exact not_mem_parameterChars (by decide) (by decide) parameter h

theorem splitOn_pair {x : Char} {front back : List Char} (hfront : x ∉ front) (hback : x ∉ back) :
    (front ++ x :: back).splitOn x = [front, back] := by
  have hpieces : ∀ piece ∈ [front, back], x ∉ piece := by simp [hfront, hback]
  simpa using List.splitOn_intercalate x hpieces (by simp)

theorem mapM_map_eq_some {α β : Type} {f : α → β} {g : β → Option α} (h : ∀ a, g (f a) = some a) :
    ∀ as : List α, (as.map f).mapM g = some as
  | [] => rfl
  | a :: as => by
    rw [List.map_cons, List.mapM_cons, h, mapM_map_eq_some h as]
    rfl

/-! ### What is written is read back -/

theorem readParameter?_parameterChars (parameter : String × String) :
    readParameter? (parameterChars parameter) = some parameter := by
  have heq : '=' ∈ Percent.separators := by decide
  rw [readParameter?, parameterChars,
    splitOn_pair (not_mem_pieceChars heq parameter.1) (not_mem_pieceChars heq parameter.2)]
  simp only [readPiece?_pieceChars]
  rfl

theorem readSegments?_frontChars {segments : List String} (hne : segments ≠ []) :
    readSegments? (frontChars segments) = some segments := by
  rw [readSegments?, splitOn_frontChars hne]
  exact mapM_map_eq_some readPiece?_pieceChars segments

theorem readQuery?_queryChars {query : List (String × String)} (hne : query ≠ []) :
    readQuery? (queryChars query) = some query := by
  have hamp : ∀ piece ∈ query.map parameterChars, '&' ∉ piece := by
    intro piece hpiece
    obtain ⟨parameter, -, rfl⟩ := List.mem_map.1 hpiece
    exact not_mem_parameterChars (by decide) (by decide) parameter
  rw [readQuery?, queryChars, List.splitOn_intercalate _ hamp (by simpa using hne)]
  exact mapM_map_eq_some readParameter?_parameterChars query

theorem writeQuery_chars {query : List (String × String)} (hne : query ≠ [])
    (hkeys : ∀ parameter ∈ query, Percent.encode parameter.1 = parameter.1) :
    (writeQuery query).toList = '?' :: queryChars query := by
  have hparameters : query.map (String.toList ∘ writeParameter) = query.map parameterChars := by
    refine List.map_congr_left fun parameter h => ?_
    simp [writeParameter, parameterChars, pieceChars, hkeys parameter h]
  cases query with
  | nil => exact absurd rfl hne
  | cons parameter query => simp [writeQuery, queryChars, ← hparameters]

variable {p : Path}

/-- A path has a `?` where its query begins, and no other. -/
theorem write_chars (h : p.Regular) : p.write.toList =
    if p.query = [] then frontChars p.segments
    else frontChars p.segments ++ '?' :: queryChars p.query := by
  rw [write_toList]
  split
  · next hquery => rw [hquery]; exact List.append_nil _
  · next hquery => rw [writeQuery_chars hquery h.keys]

/-- A written path is read back. -/
theorem read?_write (h : p.Regular) : read? p.write = some p := by
  obtain ⟨segments, query⟩ := p
  have hsegments : readSegments? (frontChars segments) = some segments :=
    readSegments?_frontChars h.segments
  rw [read?, write_chars h]
  by_cases hquery : query = []
  · subst hquery
    rw [if_pos rfl, List.splitOn_eq_singleton (not_mem_frontChars segments)]
    simp only [hsegments]
    rfl
  · rw [if_neg hquery, splitOn_pair (not_mem_frontChars segments) (not_mem_queryChars query)]
    simp only [hsegments, readQuery?_queryChars hquery]
    rfl

theorem count_write (h : p.Regular) :
    p.write.toList.count '?' = if p.query = [] then 0 else 1 := by
  have hfront := List.count_eq_zero_of_not_mem (not_mem_frontChars p.segments)
  have hquery := List.count_eq_zero_of_not_mem (not_mem_queryChars p.query)
  rw [write_chars h]
  split
  · exact hfront
  · simp [hfront, hquery]

/-- A parameter is put behind `&` where the path has a `?` already. -/
theorem write_withQuery_of_regular (h : p.Regular) (key value : String) :
    (p.withQuery key value).write =
      p.write ++ (if '?' ∈ p.write.toList then "&" else "?") ++ key ++ "=" ++
        Percent.encode value := by
  have hmem : '?' ∈ p.write.toList ↔ p.query ≠ [] := by
    rw [← List.count_pos_iff, count_write h]
    split <;> simp [*]
  rw [write_withQuery]
  by_cases hquery : p.query = [] <;> simp [hmem, hquery]

end Path

/-! ## Resources -/

/-- What a request of the admin API is for, in a project. -/
inductive Resource
  | application
  /-- The page of the services that a token leads to. -/
  | services (token : Option String)
  | service (module : String)
  /-- The page of a module's versions that a token leads to. -/
  | versions (module : String) (token : Option String)
  | version (module version : String)
  /-- What a mask names of a version, to be changed. -/
  | patch (module version mask : String)
  deriving DecidableEq, Repr

namespace Resource

def path (project : String) : Resource → Path
  | application => .application project
  | services token => (Path.services project).page token
  | service module => .service project module
  | versions module token => (Path.versions project module).page token
  | version module name => .version project module name
  | patch module name mask => .versionPatch project module name mask

/-- The token of a page, by the last part of its query. -/
def token? : List (String × String) → Option (Option String)
  | [] => some none
  | [("pageToken", token)] => some (some token)
  | _ => none

/-- The project and the resource that a path is for. -/
def ofPath? (p : Path) : Option (String × Resource) :=
  match p.segments, p.query with
  | ["apps", project], [] => some (project, application)
  | ["apps", project, "services"], query => do pure (project, services (← token? query))
  | ["apps", project, "services", module], [] => some (project, service module)
  | ["apps", project, "services", module, "versions"], ("view", "FULL") :: query => do
    pure (project, versions module (← token? query))
  | ["apps", project, "services", module, "versions", name], [("view", "FULL")] =>
    some (project, version module name)
  | ["apps", project, "services", module, "versions", name], [("updateMask", mask)] =>
    some (project, patch module name mask)
  | _, _ => none

def read? (s : String) : Option (String × Resource) := (Path.read? s).bind ofPath?

theorem ofPath?_path (project : String) (r : Resource) :
    ofPath? (r.path project) = some (project, r) := by
  cases r with
  | services token | versions _ token => cases token <;> rfl
  | _ => rfl

theorem path_regular (project : String) (r : Resource) : (r.path project).Regular := by
  have hne (segment : String) (segments : List String) : segment :: segments ≠ [] :=
    List.cons_ne_nil _ _
  have hview : Percent.encode "view" = "view" := rfl
  have htoken : Percent.encode "pageToken" = "pageToken" := rfl
  have hmask : Percent.encode "updateMask" = "updateMask" := rfl
  cases r with
  | application | service => exact ⟨hne _ _, List.forall_mem_nil _⟩
  | version => exact ⟨hne _ _, List.forall_mem_singleton.2 hview⟩
  | patch => exact ⟨hne _ _, List.forall_mem_singleton.2 hmask⟩
  | services token =>
    cases token with
    | none => exact ⟨hne _ _, List.forall_mem_nil _⟩
    | some => exact ⟨hne _ _, List.forall_mem_singleton.2 htoken⟩
  | versions module token =>
    cases token with
    | none => exact ⟨hne _ _, List.forall_mem_singleton.2 hview⟩
    | some => exact ⟨hne _ _, List.forall_mem_cons.2 ⟨hview, List.forall_mem_singleton.2 htoken⟩⟩

/-- A resource is read off its path. -/
theorem read?_write (project : String) (r : Resource) :
    read? (r.path project).write = some (project, r) := by
  rw [read?, Path.read?_write (r.path_regular project)]
  exact ofPath?_path project r

theorem write_inj {project project' : String} {r r' : Resource}
    (h : (r.path project).write = (r'.path project').write) : project = project' ∧ r = r' := by
  have hread := congrArg read? h
  simpa [read?_write] using hread

end Resource

/-! ## Requests are for resources -/

open Dialogue

/-- A request that `caller` makes for a resource of a project. -/
inductive Asked (project caller : String) : Request → Prop
  | read (r : Resource) : Asked project caller (.get (r.path project).write caller)
  | change (module name mask : String) (body : Bytes) : Asked project caller
      (.patch (Resource.path project (.patch module name mask)).write body caller)

/-- A request that `caller` makes to read a resource of a project. -/
def Reads (project caller : String) (request : Request) : Prop :=
  ∃ r : Resource, request = .get (r.path project).write caller

variable {α β : Type} {project caller : String}

theorem Reads.asked {request : Request} (h : Reads project caller request) :
    Asked project caller request := by
  obtain ⟨r, rfl⟩ := h
  exact .read r

theorem services_asks (project caller : String) :
    Asks (Reads project caller) (services project caller).run := by
  intro received request hask
  obtain ⟨items, tokens, hw⟩ := Listing.walking_of_asks hask
  obtain rfl := Except.error.inj (hask.symm.trans hw.asks)
  exact ⟨.services tokens.getLast?, rfl⟩

theorem versions_asks (project module caller : String) :
    Asks (Reads project caller) (versions project module caller).run := by
  intro received request hask
  obtain ⟨items, tokens, hw⟩ := Listing.walking_of_asks hask
  obtain rfl := Except.error.inj (hask.symm.trans hw.asks)
  exact ⟨.versions module tokens.getLast?, rfl⟩

theorem fetch_asks (reply? : Json → Option α) (r : Resource) :
    Asks (Reads project caller) (fetch reply? (r.path project).write caller).run := by
  refine .run_bind (.ask ⟨r, rfl⟩) fun body => ?_
  cases decode? reply? body <;> exact .pure _

theorem patch_asks (module name : String) (change : Patch) :
    Asks (Asked project caller) (patch project module name change caller).run :=
  .map _ (.run_bind (.ask (.change module name change.mask change.body)) fun _ => .pure _)

theorem hostname_asks (q : HostnameQuery) :
    Asks (Reads project hostnameCaller) (hostname project q).run := by
  refine HostnameQuery.resolve_closed (P := fun x => Asks (Reads project hostnameCaller) x.run)
    (fun _ => .pure _) (fun _ _ => .run_bind) _ _ ?_ ?_ ?_ ?_
  · exact .map _ (.run_bind (services_asks _ _) fun _ => .pure _)
  · exact .map _ (.run_bind (fetch_asks _ .application) fun _ => .pure _)
  · exact .map _ (.run_bind (versions_asks _ _ _) fun _ => .pure _)
  · exact fun name => .map _ (.run_bind (fetch_asks _ (.version q.module name)) fun _ => .pure _)

end Admin

open Dialogue Admin

namespace Client

variable {P : Request → Prop} {c : Client Exchange}

/-- A version is found out without asking. -/
theorem versionOrCurrent_asks (c : Client Exchange) (module : String) (version : Option String) :
    Asks P (c.versionOrCurrent module version).run := by
  unfold versionOrCurrent
  cases version <|> c.identity.version <;> exact .pure _

theorem setServingStatus_asks {status : ServingStatus}
    (h : ∀ module version, Asks P (c.backend.setServingStatus module version status).run)
    (module version : Option String) : Asks P (c.setServingStatus status module version).run := by
  refine .run_bind (c.versionOrCurrent_asks _ _) fun version => ?_
  rw [absorbUnexpectedState_run]
  exact .map _ (h _ _)

end Client

/-- The change of a version that an operation is to make. -/
def Operation.change? : Operation → Option Patch
  | setInstanceCount count _ _ => some (.instances count)
  | startVersion _ _ => some (.servingStatus .serving)
  | stopVersion _ _ => some (.servingStatus .stopped)
  | _ => none

/-- An operation that is to change nothing only reads. -/
theorem Access.perform_reads (project : String) (endpoint : Admin.Endpoint) (identity : Identity)
    {op : Operation} (h : op.change? = none) : Asks (Reads project op.method.caller)
      (((Access.admin project endpoint).client identity).perform op).run := by
  cases op with
  | listModules => exact .run_map _ (.map _ (.run_bind (services_asks _ _) fun _ => .pure _))
  | listVersions => exact .run_map _ (.map _ (.run_bind (versions_asks _ _ _) fun _ => .pure _))
  | defaultVersion module =>
    exact .run_map _ (.run_bind (.map _ (fetch_asks _ (.service _))) fun _ => .pure _)
  | instanceCount module version =>
    refine .run_map _ (.run_bind (Client.versionOrCurrent_asks _ _ _) fun name => ?_)
    exact .run_bind (.map _ (fetch_asks _ (.version _ name))) fun _ => .pure _
  | hostname module version index =>
    refine .run_map _ ?_
    unfold Client.hostname
    cases parseInstance? index with
    | error failure => exact .pure _
    | ok index => exact hostname_asks _
  | setInstanceCount | startVersion | stopVersion => cases h

/-- All requests of an operation carry its tag, and each is for a resource. -/
theorem Access.perform_asks (project : String) (endpoint : Admin.Endpoint) (identity : Identity)
    (op : Operation) : Asks (Asked project op.method.caller)
      (((Access.admin project endpoint).client identity).perform op).run := by
  cases op with
  | setInstanceCount count module version =>
    refine .run_map _ (.run_bind (Client.versionOrCurrent_asks _ _ _) fun name => ?_)
    exact patch_asks _ _ _
  | startVersion module version =>
    exact .run_map _ (Client.setServingStatus_asks (fun _ _ => patch_asks _ _ _) _ _)
  | stopVersion module version =>
    exact .run_map _ (Client.setServingStatus_asks (fun _ _ => patch_asks _ _ _) _ _)
  | _ => exact (Access.perform_reads project endpoint identity rfl).mono fun _ => Reads.asked

/-- **Paths of admin resources cannot be confused.** Whatever the texts it is
made of, the path of a resource has at most one `?`, and is read back as the
resource and the project it was written for; so two paths are the same only if
all of that is. A parameter is put behind `&` where a path has a `?` already,
and no run of an operation makes a request but for a resource. -/
theorem resource_paths_read_back (project : String) :
    (∀ r : Resource, (r.path project).write.toList.count '?' ≤ 1 ∧
      Resource.read? (r.path project).write = some (project, r)) ∧
    (∀ (r r' : Resource) (project' : String),
      (r.path project).write = (r'.path project').write ↔ project = project' ∧ r = r') ∧
    (∀ (r : Resource) (key value : String), ((r.path project).withQuery key value).write =
      (r.path project).write ++ (if '?' ∈ (r.path project).write.toList then "&" else "?") ++
        key ++ "=" ++ Percent.encode value) ∧
    ∀ endpoint identity op server made received, Reaches server
      (((Access.admin project endpoint).client identity).perform op).run made received →
        ∀ request ∈ made, Asked project op.method.caller request := by
  refine ⟨fun r => ⟨?_, r.read?_write project⟩, fun r r' project' => ⟨Resource.write_inj, ?_⟩,
    fun r => Path.write_withQuery_of_regular (r.path_regular project),
    fun endpoint identity op _ _ _ => (Access.perform_asks project endpoint identity op).made⟩
  · rw [Path.count_write (r.path_regular project)]
    split <;> decide
  · rintro ⟨rfl, rfl⟩
    rfl

/-- A module and a token that are made of separators. -/
theorem resource_paths_read_back_separators :
    Resource.read? "apps/demo/services/a%2Fb%3Fview%3DFULL/versions?view=FULL&pageToken=%26%25" =
      some ("demo", .versions "a/b?view=FULL" (some "&%")) ∧
    ∀ request ∈ [Request.get "apps/demo/services/a%2Fb%3Fview%3DFULL/versions?view=FULL"
      "get_versions"], Asked "demo" "get_versions" request := by
  obtain ⟨hread, -, -, hrequests⟩ := resource_paths_read_back "demo"
  have hstart : Reaches (fun _ _ => .error (.http 404 "Not found."))
      (((Access.admin "demo" ⟨"https://api.test", 60000, "", none⟩).client .unknown).perform
        (.listVersions (some "a/b?view=FULL"))).run [] [] := .start
  refine ⟨?_, hrequests _ _ _ _ _ _ (hstart.ask rfl)⟩
  exact (hread (.versions "a/b?view=FULL" (some "&%"))).2

end ControlPlane
