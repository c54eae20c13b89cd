/-
What an environment names. A variable that is set to nothing is as good as
unset (`Usable`), and of the value of an older one just a part may count, cut
off at a mark (`Cut`). The parts of an identity are read in one way (`Part`), so
what holds of one holds of all: none is empty, and none depends on the variables
of another. The project is read from three variables, and what is left of the
last may be empty.
-/
import ControlPlane.Access
import ControlPlane.Proofs.Calls

namespace ControlPlane

/-! ## Variables -/

/-- The variable has this value, and it is not empty. -/
def Usable (lookup : String → Option String) (name value : String) : Prop :=
  lookup name = some value ∧ value ≠ ""

variable {lookup : String → Option String} {name value : String}

theorem nonEmpty?_eq_some_iff : nonEmpty? lookup name = some value ↔ Usable lookup name value := by
  rw [nonEmpty?, Option.filter_eq_some_iff, decide_eq_true_iff, Usable]

theorem nonEmpty?_eq_none_iff :
    nonEmpty? lookup name = none ↔ ∀ value, ¬ Usable lookup name value := by
  simp only [Option.eq_none_iff_forall_ne_some, ne_eq, nonEmpty?_eq_some_iff]

/-- A text and the mark it is cut at: what is in front of the first mark, and what
is behind it if there is one. -/
inductive Cut (mark : Char) (text : String) : String → Option String → Prop
  | whole : mark ∉ text.toList → Cut mark text text none
  | parted {front back : String} : mark ∉ front.toList →
      text.toList = front.toList ++ mark :: back.toList → Cut mark text front (some back)

namespace Cut

variable {mark : Char} {text front : String} {back : Option String}

theorem exists_cut (mark : Char) (text : String) : ∃ front back, Cut mark text front back := by
  by_cases h : mark ∈ text.toList
  · obtain ⟨front, back, htext, hfront⟩ := List.eq_append_cons_of_mem h
    refine ⟨String.ofList front, some (String.ofList back), .parted ?_ ?_⟩
    · rwa [String.toList_ofList]
    · rw [htext, String.toList_ofList, String.toList_ofList]
  · exact ⟨text, none, .whole h⟩

theorem not_mem (h : Cut mark text front back) : mark ∉ front.toList := by
  cases h with
  | whole h => exact h
  | parted h => exact h

theorem takeWhile_eq (h : Cut mark text front back) :
    text.toList.takeWhile (· ≠ mark) = front.toList := by
  have hfront : ∀ c ∈ front.toList, decide (c ≠ mark) = true := fun c hc =>
    decide_eq_true fun heq => h.not_mem (heq ▸ hc)
  cases h with
  | whole => rw [← List.append_nil text.toList, List.takeWhile_append_of_pos hfront]; rfl
  | parted _ htext =>
    rw [htext, List.takeWhile_append_of_pos hfront, List.takeWhile_cons_of_neg (by simp),
      List.append_nil]

theorem dropWhile_eq (h : Cut mark text front back) :
    text.toList.dropWhile (· ≠ mark) = back.elim [] fun back => mark :: back.toList := by
  have hfront : ∀ c ∈ front.toList, decide (c ≠ mark) = true := fun c hc =>
    decide_eq_true fun heq => h.not_mem (heq ▸ hc)
  cases h with
  | whole => rw [← List.append_nil text.toList, List.dropWhile_append_of_pos hfront]; rfl
  | parted _ htext =>
    rw [htext, List.dropWhile_append_of_pos hfront, List.dropWhile_cons_of_neg (by simp)]
    rfl

end Cut

/-! ## The identity -/

/-- The version that a full version names: what is in front of its first dot, if
that is a name at all. -/
def Major (full version : String) : Prop :=
  (∃ minor, Cut '.' full version minor) ∧ version ≠ "" ∧ version ≠ "None"

theorem majorVersion?_of_cut {full version : String} {minor : Option String}
    (h : Cut '.' full version minor) :
    majorVersion? full = if version ≠ "" ∧ version ≠ "None" then some version else none := by
  rw [majorVersion?, h.takeWhile_eq, String.ofList_toList]

theorem majorVersion?_eq_some_iff {full version : String} :
    majorVersion? full = some version ↔ Major full version := by
  constructor
  · intro h
    obtain ⟨front, minor, hcut⟩ := Cut.exists_cut '.' full
    rw [majorVersion?_of_cut hcut] at h
    split at h
    · next hname =>
      cases h
      exact ⟨⟨minor, hcut⟩, hname⟩
    · cases h
  · rintro ⟨⟨minor, hcut⟩, hname⟩
    rw [majorVersion?_of_cut hcut, if_pos hname]

namespace Identity

/-- A part of an identity, with the variables it is read from. -/
structure Part where
  read : Identity → Option String
  newer : String
  older : String
  /-- What the value of the older variable is good for. -/
  Names : String → String → Prop

def parts : List Part :=
  [⟨module, "GAE_SERVICE", "CURRENT_MODULE_ID", Eq⟩,
    ⟨version, "GAE_VERSION", "CURRENT_VERSION_ID", Major⟩,
    ⟨instanceId, "GAE_INSTANCE", "INSTANCE_ID", Eq⟩]

/-- What the variables of a part decide on. The newer one decides if it can. -/
inductive Part.Decides (part : Part) (lookup : String → Option String) : String → Prop
  | newer {value : String} : Usable lookup part.newer value → part.Decides lookup value
  | older {value name : String} : (∀ value, ¬ Usable lookup part.newer value) →
      Usable lookup part.older value → part.Names value name → part.Decides lookup name

theorem Part.decides_iff {part : Part} (f : String → Option String)
    (hread : part.read (ofLookup lookup) =
      (nonEmpty? lookup part.newer <|> (nonEmpty? lookup part.older).bind f))
    (hnames : ∀ {value name}, f value = some name ↔ part.Names value name) :
    part.read (ofLookup lookup) = some name ↔ part.Decides lookup name := by
  simp only [hread, Option.orElse_eq_some, Option.bind_eq_some_iff, nonEmpty?_eq_some_iff,
    nonEmpty?_eq_none_iff, hnames]
  constructor
  · rintro (h | ⟨hnewer, value, hvalue, hname⟩)
    · exact .newer h
    · exact .older hnewer hvalue hname
  · rintro (h | ⟨hnewer, hvalue, hname⟩)
    · exact .inl h
    · exact .inr ⟨hnewer, _, hvalue, hname⟩

theorem Part.names_ne_empty {part : Part} (h : part ∈ parts) {value name : String}
    (hvalue : value ≠ "") (hname : part.Names value name) : name ≠ "" := by
  simp only [parts, List.mem_cons, List.not_mem_nil, or_false] at h
  rcases h with rfl | rfl | rfl
  · exact hname ▸ hvalue
  · exact hname.2.1
  · exact hname ▸ hvalue

theorem read_ofLookup {part : Part} (h : part ∈ parts) :
    part.read (ofLookup lookup) = some name ↔ part.Decides lookup name := by
  simp only [parts, List.mem_cons, List.not_mem_nil, or_false] at h
  rcases h with rfl | rfl | rfl
  · exact Part.decides_iff some (by rw [Option.bind_fun_some]; rfl) Option.some_inj
  · exact Part.decides_iff majorVersion? rfl majorVersion?_eq_some_iff
  · exact Part.decides_iff some (by rw [Option.bind_fun_some]; rfl) Option.some_inj

theorem Part.not_decides_empty {part : Part} (h : part ∈ parts) : ¬ part.Decides lookup "" := by
  rintro (⟨-, hvalue⟩ | ⟨-, ⟨-, hvalue⟩, hname⟩)
  · exact hvalue rfl
  · exact names_ne_empty h hvalue hname rfl

/-- Two environments in which the variables of a part are the same. -/
theorem Part.Decides.congr {part : Part} {other : String → Option String}
    (hnewer : other part.newer = lookup part.newer) (holder : other part.older = lookup part.older)
    (h : part.Decides lookup name) : part.Decides other name := by
  cases h with
  | newer h => exact .newer ⟨hnewer.trans h.1, h.2⟩
  | older hnone h hname =>
    exact .older (fun value h => hnone value ⟨hnewer.symm.trans h.1, h.2⟩)
      ⟨holder.trans h.1, h.2⟩ hname

/-- A version that only the older variable has is cut at its first dot. -/
theorem version_of_cut {full version : String} {minor : Option String}
    (hnewer : ∀ value, ¬ Usable lookup "GAE_VERSION" value)
    (holder : lookup "CURRENT_VERSION_ID" = some full) (hcut : Cut '.' full version minor) :
    (ofLookup lookup).version =
      if version ≠ "" ∧ version ≠ "None" then some version else none := by
  rw [← majorVersion?_of_cut hcut, ofLookup, nonEmpty?_eq_none_iff.2 hnewer]
  by_cases hfull : full = ""
  -- An empty value counts as unset, and there is nothing in front of its first dot either.
  · have hunset : nonEmpty? lookup "CURRENT_VERSION_ID" = none :=
      nonEmpty?_eq_none_iff.2 fun value h =>
        h.2 (Option.some.inj (h.1.symm.trans (holder.trans (congrArg some hfull))))
    have hnothing : majorVersion? "" = none := by decide
    rw [hunset, hfull, hnothing]
    rfl
  · rw [nonEmpty?_eq_some_iff.2 ⟨holder, hfull⟩]
    rfl

end Identity

/-! ## Calls -/

namespace Backend.Call

/-- The module that a call names. -/
def module? : Call → Option String
  | listModules => none
  | listVersions module | defaultVersion module | instanceCount module _
  | setInstanceCount module _ _ | setServingStatus module _ _ => some module
  | hostname query => some query.module

/-- The version that a call names. -/
def version? : Call → Option String
  | listModules | listVersions _ | defaultVersion _ => none
  | instanceCount _ version | setInstanceCount _ version _ | setServingStatus _ version _ =>
    some version
  | hostname query => query.version.name

end Backend.Call

namespace Operation

/-- The module argument of an operation, if it is given. -/
def module? : Operation → Option String
  | listModules => none
  | listVersions module | defaultVersion module | instanceCount module _
  | setInstanceCount _ module _ | startVersion module _ | stopVersion module _
  | hostname module _ _ => module

/-- The version argument of an operation, if it is given. -/
def version? : Operation → Option String
  | listModules | listVersions _ | defaultVersion _ => none
  | instanceCount _ version | setInstanceCount _ _ version | startVersion _ version
  | stopVersion _ version | hostname _ version _ => version

variable {i : Identity} {op : Operation} {made : Backend.Call}

theorem callFor_eq_ok {module version : Option String} {call : String → String → Backend.Call} :
    i.callFor module version call = .ok made ↔
      ∃ name, i.versionFor version = some name ∧ made = call (i.moduleFor module) name := by
  rw [Identity.callFor]
  cases i.versionFor version <;> simp [eq_comm]

/-- A call names the module and the version that are meant. -/
theorem named_of_call (h : op.call i = .ok made) :
    (∀ name, made.module? = some name → i.moduleFor op.module? = name) ∧
      ∀ name, made.version? = some name → i.versionFor op.version? = some name := by
  cases op with
  | listModules => cases h; exact ⟨nofun, nofun⟩
  | listVersions | defaultVersion => cases h; exact ⟨fun _ => Option.some.inj, nofun⟩
  | instanceCount | setInstanceCount | startVersion | stopVersion =>
    rw [call] at h
    obtain ⟨version, hversion, rfl⟩ := callFor_eq_ok.1 h
    exact ⟨fun _ => Option.some.inj, fun _ hname => hversion.trans hname⟩
  | hostname module version raw =>
    rw [call] at h
    cases hindex : parseInstance? raw with
    | error failure => rw [hindex] at h; cases h
    | ok index =>
      rw [hindex] at h
      cases h
      refine ⟨fun _ => Option.some.inj, fun _ hname => ?_⟩
      exact (Identity.name_selectorFor i version).symm.trans hname

end Operation

namespace Identity

variable {i : Identity}

/-- An empty module is meant only if it is named. -/
theorem moduleFor_eq_empty {module : Option String} (hi : i.module ≠ some "")
    (h : i.moduleFor module = "") : module = some "" := by
  cases module with
  | some module => exact congrArg some h
  | none =>
    cases hmodule : i.module with
    | some name =>
      rw [moduleFor, hmodule] at h
      exact absurd (hmodule.trans (congrArg some h)) hi
    | none =>
      rw [moduleFor, hmodule] at h
      exact absurd h (by decide)

theorem versionFor_eq_empty {version : Option String} (hi : i.version ≠ some "")
    (h : i.versionFor version = some "") : version = some "" := by
  cases version with
  | some version => exact h
  | none => exact absurd h hi

end Identity

/-- The calls an operation makes of a backend, whichever it is. -/
theorem Client.calls_noted (i : Identity) (op : Operation) :
    ∃ made : List Backend.Call, (∀ call ∈ made, op.call i = .ok call) ∧
      ∀ {m : Type → Type} [Monad m] [LawfulMonad m] (b : Backend m),
        ((Client.mk b.noting i).perform op).run.run [] =
          (·, made) <$> ((Client.mk b i).perform op).run := by
  cases hcall : op.call i with
  | error failure =>
    refine ⟨[], nofun, fun b => ?_⟩
    rw [Client.noting_perform_run ⟨b, i⟩, Client.perform_run, Client.oneCall]
    simp only [hcall, map_pure]
  | ok call =>
    refine ⟨[call], fun _ hmem => congrArg Except.ok (List.mem_singleton.1 hmem).symm, fun b => ?_⟩
    rw [Client.noting_perform_run ⟨b, i⟩, Client.perform_run, Client.oneCall]
    simp only [hcall, Functor.map_map]
    rfl

/-- **An identity has no empty part**, whatever the environment is. Each part is
what its own two variables decide on, and so a call has an empty name in it only
if the caller has given one. -/
theorem identity_from_environment (lookup : String → Option String) :
    (∀ part ∈ Identity.parts,
      (∀ name, part.read (.ofLookup lookup) = some name ↔ part.Decides lookup name) ∧
      part.read (.ofLookup lookup) ≠ some "" ∧
      ∀ other : String → Option String, other part.newer = lookup part.newer →
        other part.older = lookup part.older →
          part.read (.ofLookup other) = part.read (.ofLookup lookup)) ∧
    (∀ full version minor, (∀ value, ¬ Usable lookup "GAE_VERSION" value) →
      lookup "CURRENT_VERSION_ID" = some full → Cut '.' full version minor →
        '.' ∉ version.toList ∧ (Identity.ofLookup lookup).version =
          if version ≠ "" ∧ version ≠ "None" then some version else none) ∧
    ∀ op : Operation, ∃ made : List Backend.Call,
      (∀ {m : Type → Type} [Monad m] [LawfulMonad m] (b : Backend m),
        ((Client.mk b.noting (.ofLookup lookup)).perform op).run.run [] =
          (·, made) <$> ((Client.mk b (.ofLookup lookup)).perform op).run) ∧
      ∀ call ∈ made, (call.module? = some "" → op.module? = some "") ∧
        (call.version? = some "" → op.version? = some "") := by
  have hempty : ∀ part ∈ Identity.parts, part.read (.ofLookup lookup) ≠ some "" :=
    fun part hpart h => Identity.Part.not_decides_empty hpart ((Identity.read_ofLookup hpart).1 h)
  refine ⟨fun part hpart => ⟨fun name => Identity.read_ofLookup hpart, hempty part hpart,
    fun other hnewer holder => Option.ext fun name => ?_⟩,
    fun full version minor hnewer holder hcut =>
      ⟨hcut.not_mem, Identity.version_of_cut hnewer holder hcut⟩, fun op => ?_⟩
  · rw [Identity.read_ofLookup hpart, Identity.read_ofLookup hpart]
    exact ⟨.congr hnewer.symm holder.symm, .congr hnewer holder⟩
  · obtain ⟨made, hmade, hnoted⟩ := Client.calls_noted (.ofLookup lookup) op
    refine ⟨made, hnoted, fun call hcall => ?_⟩
    obtain ⟨hmodule, hversion⟩ := Operation.named_of_call (hmade call hcall)
    have hmoduleEmpty := hempty ⟨Identity.module, _, _, Eq⟩ (List.mem_cons_self ..)
    have hversionEmpty := hempty ⟨Identity.version, _, _, Major⟩
      (List.mem_cons_of_mem _ (List.mem_cons_self ..))
    exact ⟨fun h => Identity.moduleFor_eq_empty hmoduleEmpty (hmodule "" h),
      fun h => Identity.versionFor_eq_empty hversionEmpty (hversion "" h)⟩

/-- A newer variable that is set to nothing leaves the version to the older one,
where it may be said not to be known. -/
theorem identity_from_environment_older :
    let lookup (full name : String) : Option String :=
      if name = "GAE_VERSION" then some "" else if name = "CURRENT_VERSION_ID" then some full
      else none
    (Identity.ofLookup (lookup "v1.377")).version = some "v1" ∧
      (Identity.ofLookup (lookup "None.377")).version = none := by
  intro lookup
  have hnewer (full value : String) : ¬ Usable (lookup full) "GAE_VERSION" value := fun h =>
    h.2 (Option.some.inj h.1).symm
  obtain ⟨-, hversion⟩ := (identity_from_environment (lookup "v1.377")).2.1 "v1.377" "v1"
    (some "377") (hnewer _) rfl (.parted (by decide) (by decide))
  obtain ⟨-, hversion'⟩ := (identity_from_environment (lookup "None.377")).2.1 "None.377" "None"
    (some "377") (hnewer _) rfl (.parted (by decide) (by decide))
  exact ⟨hversion.trans (if_pos (by decide)), hversion'.trans (if_neg (by decide))⟩

/-! ## The project -/

/-- The project of an application: what is behind its first tilde, or all of it
if it has none. -/
inductive ProjectOf (application : String) : String → Prop
  | parted {front project : String} : Cut '~' application front (some project) →
      ProjectOf application project
  | whole : '~' ∉ application.toList → ProjectOf application application

theorem projectOfApplication_of_cut {application front : String} {back : Option String}
    (h : Cut '~' application front back) :
    projectOfApplication application = back.getD application := by
  rw [projectOfApplication, h.dropWhile_eq]
  cases back with
  | none => rfl
  | some project => exact String.ofList_toList

theorem projectOfApplication_eq_iff {application project : String} :
    projectOfApplication application = project ↔ ProjectOf application project := by
  constructor
  · rintro rfl
    obtain ⟨front, back, hcut⟩ := Cut.exists_cut '~' application
    rw [projectOfApplication_of_cut hcut]
    cases hcut with
    | whole h => exact .whole h
    | parted h htext => exact .parted (.parted h htext)
  · rintro (hcut | h)
    · exact projectOfApplication_of_cut hcut
    · exact projectOfApplication_of_cut (.whole h)

/-- The project that an environment names. The first variable that can decides. -/
inductive ProjectNamed (lookup : String → Option String) : String → Prop
  | project {project : String} : Usable lookup "GAE_PROJECT" project → ProjectNamed lookup project
  | cloud {project : String} : (∀ value, ¬ Usable lookup "GAE_PROJECT" value) →
      Usable lookup "GOOGLE_CLOUD_PROJECT" project → ProjectNamed lookup project
  | application {application project : String} : (∀ value, ¬ Usable lookup "GAE_PROJECT" value) →
      (∀ value, ¬ Usable lookup "GOOGLE_CLOUD_PROJECT" value) →
      Usable lookup "GAE_APPLICATION" application → ProjectOf application project →
      ProjectNamed lookup project

theorem projectOfLookup_eq_some_iff {project : String} :
    projectOfLookup lookup = some project ↔ ProjectNamed lookup project := by
  simp only [projectOfLookup, Option.orElse_eq_some, Option.map_eq_some_iff, nonEmpty?_eq_some_iff,
    nonEmpty?_eq_none_iff, projectOfApplication_eq_iff]
  constructor
  · rintro (h | ⟨hproject, h | ⟨hcloud, application, h, hname⟩⟩)
    · exact .project h
    · exact .cloud hproject h
    · exact .application hproject hcloud h hname
  · rintro (h | ⟨hproject, h⟩ | ⟨hproject, hcloud, h, hname⟩)
    · exact .inl h
    · exact .inr ⟨hproject, .inl h⟩
    · exact .inr ⟨hproject, .inr ⟨hcloud, _, h, hname⟩⟩

/-- The only way to an empty project: the last of the variables decides, and its
first tilde is its last character. -/
theorem projectNamed_empty_iff : ProjectNamed lookup "" ↔
    (∀ value, ¬ Usable lookup "GAE_PROJECT" value) ∧
    (∀ value, ¬ Usable lookup "GOOGLE_CLOUD_PROJECT" value) ∧
    ∃ front, '~' ∉ front.toList ∧ lookup "GAE_APPLICATION" = some (front ++ "~") := by
  constructor
  · rintro (⟨-, h⟩ | ⟨-, -, h⟩ | ⟨hproject, hcloud, ⟨happlication, hvalue⟩, hname⟩)
    · exact absurd rfl h
    · exact absurd rfl h
    · refine ⟨hproject, hcloud, ?_⟩
      rcases hname with @⟨front, _, hcut⟩ | -
      · cases hcut with
        | parted hfront htext =>
          refine ⟨front, hfront, happlication.trans (congrArg some (String.toList_inj.1 ?_))⟩
          rw [htext, String.toList_append]
          rfl
      · exact absurd rfl hvalue
  · rintro ⟨hproject, hcloud, front, hfront, happlication⟩
    have hvalue : front ++ "~" ≠ "" := by simp
    refine .application hproject hcloud ⟨happlication, hvalue⟩ (.parted (.parted hfront ?_))
    rw [String.toList_append]
    rfl

namespace Access

/-- The project that a backend is bound to. -/
def Bound (s : Settings) (lookup : String → Option String) (project : String) : Prop :=
  s.projectId = some project ∨ s.projectId = none ∧ ProjectNamed lookup project

theorem project?_eq_some_iff {s : Settings} {project : String} :
    project? s lookup = some project ↔ Bound s lookup project := by
  simp only [project?, Option.orElse_eq_some, projectOfLookup_eq_some_iff, Bound]

theorem project?_eq_none_iff {s : Settings} : project? s lookup = none ↔ s.projectId = none ∧
    ∀ name ∈ ["GAE_PROJECT", "GOOGLE_CLOUD_PROJECT", "GAE_APPLICATION"], ∀ value,
      ¬ Usable lookup name value := by
  simp only [project?, projectOfLookup, Option.orElse_eq_none, Option.map_eq_none_iff,
    nonEmpty?_eq_none_iff, List.forall_mem_cons, List.not_mem_nil, false_implies, implies_true,
    and_true]

/-- **The admin backend is bound to the project that comes first**: that of the
settings, or else that of the environment. It need not have a name: the settings
may give an empty one, and nothing may be left of the name of an application. -/
theorem admin_project_bound {s : Settings} (hmode : s.useAdminApi = true)
    (lookup : String → Option String) :
    (ofSettings s lookup = .error .missingProject ↔ s.projectId = none ∧
      ∀ name ∈ ["GAE_PROJECT", "GOOGLE_CLOUD_PROJECT", "GAE_APPLICATION"], ∀ value,
        ¬ Usable lookup name value) ∧
    (∀ endpoint reason, ofSettings s lookup = .error (.invalidEndpoint endpoint reason) ↔
      (∃ project, Bound s lookup project) ∧ Admin.Endpoint.ofSettings s.admin = .error reason ∧
        endpoint = s.admin.baseUrl) ∧
    (∀ access, ofSettings s lookup = .ok access ↔ ∃ project endpoint, Bound s lookup project ∧
      Admin.Endpoint.ofSettings s.admin = .ok endpoint ∧ access = .admin project endpoint) ∧
    (∀ project, projectOfLookup lookup = some project ↔ ProjectNamed lookup project) ∧
    (ProjectNamed lookup "" ↔ (∀ value, ¬ Usable lookup "GAE_PROJECT" value) ∧
      (∀ value, ¬ Usable lookup "GOOGLE_CLOUD_PROJECT" value) ∧
      ∃ front, '~' ∉ front.toList ∧ lookup "GAE_APPLICATION" = some (front ++ "~")) := by
  have hadmin : s.mode = .admin := by rw [Settings.mode, hmode]; rfl
  refine ⟨?_, fun endpoint reason => ?_, fun access => ?_,
    fun _ => projectOfLookup_eq_some_iff, projectNamed_empty_iff⟩
  all_goals
    simp only [← project?_eq_none_iff, ← project?_eq_some_iff, ofSettings, hadmin]
    cases project? s lookup with
    | none => simp
    | some project => cases Admin.Endpoint.ofSettings s.admin <;> simp [eq_comm, and_comm]

/-- An application whose name is a partition and nothing else, and one with a project. -/
theorem admin_project_bound_partition :
    let s : Settings := { useAdminApi := true }
    let lookup (application name : String) : Option String :=
      if name = "GAE_APPLICATION" then some application else none
    let endpoint : Admin.Endpoint :=
      ⟨"https://appengine.googleapis.com/v1", 60000, "appengine-modules-api-rust-client", none⟩
    ofSettings s (lookup "s~") = .ok (.admin "" endpoint) ∧
      ofSettings s (lookup "s~shop") = .ok (.admin "shop" endpoint) := by
  intro s lookup endpoint
  have hendpoint : Admin.Endpoint.ofSettings s.admin = .ok endpoint := by
    simp only [s, endpoint]
    decide +kernel
  obtain ⟨-, -, hbound, -, hempty⟩ := admin_project_bound (s := s) rfl (lookup "s~")
  obtain ⟨-, -, hbound', -⟩ := admin_project_bound (s := s) rfl (lookup "s~shop")
  have hnone (application value : String) : ¬ Usable (lookup application) "GAE_PROJECT" value :=
    nofun
  have hnone' (application value : String) :
      ¬ Usable (lookup application) "GOOGLE_CLOUD_PROJECT" value := nofun
  have hnothing : ProjectNamed (lookup "s~") "" := hempty.2 ⟨hnone _, hnone' _, "s", by decide, rfl⟩
  have hshop : ProjectNamed (lookup "s~shop") "shop" :=
    .application (hnone _) (hnone' _) ⟨rfl, by decide⟩
      (.parted (@Cut.parted '~' "s~shop" "s" "shop" (by decide) (by decide)))
  exact ⟨(hbound _).2 ⟨"", endpoint, .inr ⟨rfl, hnothing⟩, hendpoint, rfl⟩,
    (hbound' _).2 ⟨"shop", endpoint, .inr ⟨rfl, hshop⟩, hendpoint, rfl⟩⟩

end Access

end ControlPlane
