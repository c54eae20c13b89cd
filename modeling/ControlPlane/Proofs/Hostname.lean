/-
Which hostname is resolved, and with which reads. `Resolves` gives the rules
of addressing one by one, with hostnames as lists of typed segments; a
resolution follows them (`resolution_resolves`), and what they come to in the
end is stated in `Policy`.
-/
import ControlPlane.Hostname

namespace ControlPlane

/-! ## Reads and segments -/

/-- A read of a topology. -/
inductive Read
  | moduleNames
  | suffix
  | versionNames (module : String)
  | versionDetails (module version : String)
  deriving DecidableEq, Repr

/-- What an application answers to each read, or how the read fails. -/
structure Answers where
  moduleNames : Except Fault (List String)
  suffix : Except Fault String
  versionNames (module : String) : Except Fault (List String)
  versionDetails (module version : String) : Except Fault VersionDetails

namespace Answers

/-- A read fails with this fault. -/
def Fails (t : Answers) (fault : Fault) : Read → Prop
  | .moduleNames => t.moduleNames = .error fault
  | .suffix => t.suffix = .error fault
  | .versionNames m => t.versionNames m = .error fault
  | .versionDetails m v => t.versionDetails m v = .error fault

end Answers

/-! ### Sources -/

namespace Topology

variable {σ : Type}

/-- Makes a read of a source and notes it down. -/
def noted (r : Read) (x : ExceptT Fault (StateM σ) α) :
    ExceptT Fault (StateM (σ × List Read)) α :=
  ExceptT.mk fun (s, reads) =>
    let (answer, s') := x.run.run s
    (answer, s', reads ++ [r])

/-- A source with the reads made of it noted down. -/
def noting (source : Topology (StateM σ)) : Topology (StateM (σ × List Read)) where
  moduleNames := noted .moduleNames source.moduleNames
  suffix := noted .suffix source.suffix
  versionNames m := noted (.versionNames m) (source.versionNames m)
  versionDetails m v := noted (.versionDetails m v) (source.versionDetails m v)

/-- What a source answers from the state `s` on: to the module names at once,
to the suffix after them, and to any other read after these two. -/
def answers (source : Topology (StateM σ)) (s : σ) : Answers :=
  let moduleNames := source.moduleNames.run.run s
  let suffix := source.suffix.run.run moduleNames.2
  { moduleNames := moduleNames.1
    suffix := suffix.1
    versionNames := fun m => ((source.versionNames m).run.run suffix.2).1
    versionDetails := fun m v => ((source.versionDetails m v).run.run suffix.2).1 }

end Topology

/-- A segment of a hostname, with what it stands for. -/
inductive Segment
  | index (i : UInt32)
  | version (name : String)
  | module (name : String)
  | suffix (text : String)
  deriving DecidableEq, Repr

def Segment.text : Segment → String
  | index i => HostnameQuery.segment i
  | version name | module name => name
  | suffix text => text

namespace HostnameQuery

/-- The hostname of segments. -/
def joined (segments : List Segment) : String := join (segments.map Segment.text)

/-- The outcome of a query to a source, and the reads made of it, in order. -/
def resolution {σ : Type} (q : HostnameQuery) (source : Topology (StateM σ)) (s : σ) :
    Except Failure String × List Read :=
  let (outcome, _, reads) := (q.resolve source.noting).run.run (s, [])
  (outcome, reads)

/-! ## The rules -/

/-- The outcome of a query once the module names and the suffix are known, with
the reads it takes from there. -/
inductive Addresses (t : Answers) (q : HostnameQuery) (names : List String) (suffix : String) :
    Except Failure (List Segment) → List Read → Prop
  | absent : q.module ∉ names → Addresses t q names suffix (.error (.moduleNotFound q.module)) []
  /-- In an application of the default module alone, nothing more is checked. -/
  | single {version} : q.module ∈ names → names = [defaultModule] → q.version.name = some version →
      Addresses t q names suffix
        (.ok (q.index.toList.map .index ++ [.version version, .suffix suffix])) []
  | singleUnversioned : q.module ∈ names → names = [defaultModule] → q.version.name = none →
      Addresses t q names suffix (.error (.unknownVersion q.module)) []
  /-- An instance is one of a version. -/
  | unversioned {i} : q.module ∈ names → names ≠ [defaultModule] → q.index = some i →
      q.version.name = none → Addresses t q names suffix (.error (.unknownVersion q.module)) []
  | detailsFail {i version fault} : q.module ∈ names → names ≠ [defaultModule] →
      q.index = some i → q.version.name = some version →
      t.versionDetails q.module version = .error fault →
      Addresses t q names suffix (.error (fault.classify .module))
        [.versionDetails q.module version]
  | unscaled {i version details} : q.module ∈ names → names ≠ [defaultModule] →
      q.index = some i → q.version.name = some version →
      t.versionDetails q.module version = .ok details →
      (∀ count, details.scaling ≠ .manual count) →
      Addresses t q names suffix (.error .noInstanceNames) [.versionDetails q.module version]
  | outOfRange {i version details count} : q.module ∈ names → names ≠ [defaultModule] →
      q.index = some i → q.version.name = some version →
      t.versionDetails q.module version = .ok details → details.scaling = .manual count →
      count ≤ i → Addresses t q names suffix (.error (.instanceNotFound i q.module version))
        [.versionDetails q.module version]
  | instance {i version details count} : q.module ∈ names → names ≠ [defaultModule] →
      q.index = some i → q.version.name = some version →
      t.versionDetails q.module version = .ok details → details.scaling = .manual count →
      i < count → Addresses t q names suffix
        (.ok [.index i, .version version, .module q.module, .suffix suffix])
        [.versionDetails q.module version]
  /-- A version the caller named is trusted. -/
  | explicit {version} : q.module ∈ names → names ≠ [defaultModule] → q.index = none →
      q.version = .explicit version → Addresses t q names suffix
        (.ok [.version version, .module q.module, .suffix suffix]) []
  | namesFail {current fault} : q.module ∈ names → names ≠ [defaultModule] → q.index = none →
      q.version = .current current → t.versionNames q.module = .error fault →
      Addresses t q names suffix (.error (fault.classify .module)) [.versionNames q.module]
  /-- The version the caller runs in may be one of the module. -/
  | current {version versions} : q.module ∈ names → names ≠ [defaultModule] → q.index = none →
      q.version = .current (some version) → t.versionNames q.module = .ok versions →
      version ∈ versions → Addresses t q names suffix
        (.ok [.version version, .module q.module, .suffix suffix]) [.versionNames q.module]
  | fallback {current versions} : q.module ∈ names → names ≠ [defaultModule] → q.index = none →
      q.version = .current current → t.versionNames q.module = .ok versions →
      (∀ version, current = some version → version ∉ versions) → Addresses t q names suffix
        (.ok [.module q.module, .suffix suffix]) [.versionNames q.module]

/-- The outcome of a query with all its reads. -/
inductive Resolves (t : Answers) (q : HostnameQuery) :
    Except Failure (List Segment) → List Read → Prop
  | unnamed {fault} : t.moduleNames = .error fault →
      Resolves t q (.error (fault.classify .module)) [.moduleNames]
  | unsuffixed {names fault} : t.moduleNames = .ok names → t.suffix = .error fault →
      Resolves t q (.error (fault.classify .module)) [.moduleNames, .suffix]
  | known {names suffix outcome later} : t.moduleNames = .ok names → t.suffix = .ok suffix →
      Addresses t q names suffix outcome later →
      Resolves t q outcome (.moduleNames :: .suffix :: later)

/-! ## Resolutions follow the rules -/

variable {σ α β : Type}

theorem run_read_noted (r : Read) (x : ExceptT Fault (StateM σ) α) (s : σ) (reads : List Read) :
    (read (Topology.noted r x)).run.run (s, reads) =
      ((x.run.run s).1.mapError (Fault.classify .module), (x.run.run s).2, reads ++ [r]) :=
  rfl

theorem read_noted_error {r : Read} {x : ExceptT Fault (StateM σ) α}
    {f : α → ExceptT Failure (StateM (σ × List Read)) β} {s s' fault}
    (h : x.run.run s = (.error fault, s')) (reads : List Read) :
    (read (Topology.noted r x) >>= f).run.run (s, reads) =
      (.error (fault.classify .module), s', reads ++ [r]) := by
  rw [ExceptT.run_bind, StateT.run_bind, run_read_noted, h]
  rfl

theorem read_noted_ok {r : Read} {x : ExceptT Fault (StateM σ) α}
    {f : α → ExceptT Failure (StateM (σ × List Read)) β} {s s' a}
    (h : x.run.run s = (.ok a, s')) (reads : List Read) :
    (read (Topology.noted r x) >>= f).run.run (s, reads) = (f a).run.run (s', reads ++ [r]) := by
  rw [ExceptT.run_bind, StateT.run_bind, run_read_noted, h]
  rfl

theorem liftExcept_ok_bind (a : α) (f : α → ExceptT Failure (StateM (σ × List Read)) β) :
    liftExcept (.ok a) >>= f = f a :=
  rfl

/-- What is left of a resolution, from the state `s` on and with the reads made
so far, follows the rules. -/
def Follows (t : Answers) (q : HostnameQuery) (names : List String) (suffix : String) (s : σ)
    (reads : List Read) (x : ExceptT Failure (StateM (σ × List Read)) String) : Prop :=
  ∃ outcome s' later, x.run.run (s, reads) = (Except.map joined outcome, s', reads ++ later) ∧
    Addresses t q names suffix outcome later

section

variable {source : Topology (StateM σ)} {t : Answers} {q : HostnameQuery} {names : List String}
  {suffix : String} {s : σ} {reads : List Read}

theorem Follows.decided {x : Except Failure String} {outcome : Except Failure (List Segment)}
    (h : Addresses t q names suffix outcome []) (hx : x = Except.map joined outcome) :
    Follows t q names suffix s reads (liftExcept x) :=
  ⟨outcome, s, [], by rw [List.append_nil, hx]; rfl, h⟩

theorem single_follows (hmem : q.module ∈ names) (hsingle : names = [defaultModule]) :
    Follows t q names suffix s reads (liftExcept (q.resolveSingle suffix)) := by
  simp only [resolveSingle, versionName]
  cases hname : q.version.name with
  | none => exact .decided (.singleUnversioned hmem hsingle hname) rfl
  | some version =>
    refine .decided (.single hmem hsingle hname) ?_
    cases q.index <;> rfl

theorem instance_follows {i : UInt32}
    (hanswer : ∀ m v, ((source.versionDetails m v).run.run s).1 = t.versionDetails m v)
    (hmem : q.module ∈ names) (hother : names ≠ [defaultModule]) (hindex : q.index = some i) :
    Follows t q names suffix s reads (do
      let version ← liftExcept q.versionName
      let details ← read (source.noting.versionDetails q.module version)
      liftExcept (q.instanceName suffix version i details.scaling)) := by
  simp only [versionName]
  cases hname : q.version.name with
  | none => exact .decided (.unversioned hmem hother hindex hname) rfl
  | some version =>
  have hdetails := hanswer q.module version
  rcases hread : (source.versionDetails q.module version).run.run s with ⟨fault | details, s'⟩
  · rw [hread] at hdetails
    exact ⟨_, _, _, read_noted_error hread _,
      .detailsFail hmem hother hindex hname hdetails.symm⟩
  rw [hread] at hdetails
  simp only [Follows, liftExcept_ok_bind, Topology.noting, read_noted_ok hread, instanceName]
  cases hscaling : details.scaling with
  | manual count =>
    simp only [Scaling.manualInstances]
    by_cases hcount : count ≤ i
    · rw [if_pos hcount]
      exact ⟨_, _, _, rfl, .outOfRange hmem hother hindex hname hdetails.symm hscaling hcount⟩
    · rw [if_neg hcount]
      exact ⟨_, _, _, rfl, .instance hmem hother hindex hname hdetails.symm hscaling
        (UInt32.not_le.1 hcount)⟩
  | automatic | basic =>
    exact ⟨_, _, _, rfl,
      .unscaled hmem hother hindex hname hdetails.symm (by simp [hscaling])⟩

theorem current_follows {current : Option String}
    (hanswer : ∀ m, ((source.versionNames m).run.run s).1 = t.versionNames m)
    (hmem : q.module ∈ names) (hother : names ≠ [defaultModule]) (hindex : q.index = none)
    (hversion : q.version = .current current) :
    Follows t q names suffix s reads (do
      let versions ← read (source.noting.versionNames q.module)
      pure (q.currentName suffix current versions)) := by
  have hversions := hanswer q.module
  rcases hread : (source.versionNames q.module).run.run s with ⟨fault | versions, s'⟩
  · rw [hread] at hversions
    exact ⟨_, _, _, read_noted_error hread _,
      .namesFail hmem hother hindex hversion hversions.symm⟩
  rw [hread] at hversions
  simp only [Follows, Topology.noting, read_noted_ok hread, currentName]
  cases current with
  | none => exact ⟨_, _, _, rfl, .fallback hmem hother hindex hversion hversions.symm nofun⟩
  | some version =>
    by_cases hrun : version ∈ versions
    · simp only [if_pos hrun]
      exact ⟨_, _, _, rfl, .current hmem hother hindex hversion hversions.symm hrun⟩
    · simp only [if_neg hrun]
      refine ⟨_, _, _, rfl, .fallback hmem hother hindex hversion hversions.symm ?_⟩
      rintro _ ⟨⟩
      exact hrun

theorem address_follows
    (hversions : ∀ m, ((source.versionNames m).run.run s).1 = t.versionNames m)
    (hdetails : ∀ m v, ((source.versionDetails m v).run.run s).1 = t.versionDetails m v) :
    Follows t q names suffix s reads (address source.noting q names suffix) := by
  unfold address
  by_cases hmem : q.module ∈ names
  case neg =>
    rw [if_pos hmem]
    exact .decided (.absent hmem) rfl
  rw [if_neg (not_not_intro hmem)]
  by_cases hsingle : names = [defaultModule]
  · rw [if_pos hsingle]
    exact single_follows hmem hsingle
  rw [if_neg hsingle]
  cases hindex : q.index with
  | some i => exact instance_follows hdetails hmem hsingle hindex
  | none =>
    cases hversion : q.version with
    | explicit version => exact .decided (.explicit hmem hsingle hindex hversion) rfl
    | current current => exact current_follows hversions hmem hsingle hindex hversion

end

/-- The resolver's reads and outcome are those of the rules. -/
theorem resolution_resolves (source : Topology (StateM σ)) (s : σ) (q : HostnameQuery) :
    ∃ outcome reads, q.resolution source s = (Except.map joined outcome, reads) ∧
      Resolves (source.answers s) q outcome reads := by
  generalize ht : source.answers s = t
  rcases hnames : source.moduleNames.run.run s with ⟨fault | names, s₁⟩
  · simp only [Topology.answers, hnames] at ht
    simp only [resolution, resolve, Topology.noting, read_noted_error hnames]
    exact ⟨_, _, rfl, .unnamed (by rw [← ht])⟩
  rcases hsuffix : source.suffix.run.run s₁ with ⟨fault | suffix, s₂⟩
  · simp only [Topology.answers, hnames, hsuffix] at ht
    simp only [resolution, resolve, Topology.noting, read_noted_ok hnames,
      read_noted_error hsuffix]
    exact ⟨_, _, rfl, .unsuffixed (by rw [← ht]) (by rw [← ht])⟩
  simp only [Topology.answers, hnames, hsuffix] at ht
  have hversions : ∀ m, ((source.versionNames m).run.run s₂).1 = t.versionNames m := by
    simp [← ht]
  have hdetails : ∀ m v, ((source.versionDetails m v).run.run s₂).1 = t.versionDetails m v := by
    simp [← ht]
  obtain ⟨outcome, s', later, haddress, h⟩ : Follows t q names suffix s₂ [.moduleNames, .suffix]
      (address source.noting q names suffix) := address_follows hversions hdetails
  refine ⟨outcome, _, ?_, .known (by rw [← ht]) (by rw [← ht]) h⟩
  have hrun : (resolve source.noting q).run.run (s, []) =
      (address source.noting q names suffix).run.run (s₂, [.moduleNames, .suffix]) := by
    unfold resolve
    exact (read_noted_ok hnames _).trans (read_noted_ok hsuffix _)
  rw [resolution, hrun, haddress]
  rfl

/-! ## The policy -/

/-- The policy once the module names and the suffix are known: the outcome, and
the reads from there. -/
structure Addressing (t : Answers) (q : HostnameQuery) (names : List String) (suffix : String)
    (outcome : Except Failure (List Segment)) (later : List Read) : Prop where
  /-- Not to be among the names, or not to be found later, is all that makes a
  module invalid. -/
  invalidModule : (∃ detail, outcome = .error (.invalidModule detail)) ↔
    q.module ∉ names ∨ ∃ read ∈ later, ∃ detail, t.Fails (.http 404 detail) read
  absent : q.module ∉ names → outcome = .error (.moduleNotFound q.module) ∧ later = []
  /-- Hostnames leave the module out in an application of the default one alone. -/
  omits : ∀ segments, outcome = .ok segments →
    ((∀ name, .module name ∉ segments) ↔ names = [defaultModule])
  single : q.module ∈ names → names = [defaultModule] → later = [] ∧
    outcome = match q.version.name with
      | some version => .ok (q.index.toList.map .index ++ [.version version, .suffix suffix])
      | none => .error (.unknownVersion q.module)
  /-- Elsewhere an instance is addressed when the version's count exceeds it. -/
  instance_iff : names ≠ [defaultModule] → ∀ i,
    (∃ segments, outcome = .ok segments ∧ .index i ∈ segments) ↔
      q.module ∈ names ∧ q.index = some i ∧ ∃ version details count,
        q.version.name = some version ∧ t.versionDetails q.module version = .ok details ∧
        details.scaling = .manual count ∧ i < count
  instance_segments : names ≠ [defaultModule] → ∀ i segments, outcome = .ok segments →
    .index i ∈ segments → ∃ version, q.version.name = some version ∧
      segments = [.index i, .version version, .module q.module, .suffix suffix]
  instance_reads : q.module ∈ names → names ≠ [defaultModule] → ∀ i, q.index = some i →
    later = q.version.name.toList.map (.versionDetails q.module)
  /-- What stands in the way of an instance. -/
  instance_fails : q.module ∈ names → names ≠ [defaultModule] → ∀ i, q.index = some i →
    (q.version.name = none → outcome = .error (.unknownVersion q.module)) ∧
    ∀ version details, q.version.name = some version →
      t.versionDetails q.module version = .ok details →
        ((∀ count, details.scaling ≠ .manual count) → outcome = .error .noInstanceNames) ∧
        ∀ count, details.scaling = .manual count → count ≤ i →
          outcome = .error (.instanceNotFound i q.module version)
  /-- A version the caller named is trusted. -/
  explicit : q.module ∈ names → names ≠ [defaultModule] → q.index = none →
    ∀ version, q.version = .explicit version → later = [] ∧
      outcome = .ok [.version version, .module q.module, .suffix suffix]
  /-- The version the caller runs in counts when the module has it. -/
  current : q.module ∈ names → names ≠ [defaultModule] → q.index = none →
    ∀ current, q.version = .current current → later = [.versionNames q.module] ∧
      ∀ versions, t.versionNames q.module = .ok versions →
        outcome = .ok ((current.filter (· ∈ versions)).toList.map .version ++
          [.module q.module, .suffix suffix])

/-- **The addressing policy**: which hostname a query has in an application, or
why it has none, and which reads tell. -/
structure Policy (t : Answers) (q : HostnameQuery) (outcome : Except Failure (List Segment))
    (reads : List Read) : Prop where
  names_first : reads.head? = some .moduleNames
  suffix_next : ∀ names, t.moduleNames = .ok names →
    ∃ later, reads = .moduleNames :: .suffix :: later ∧ later.length ≤ 1
  once : reads.Nodup
  /-- A read that fails is the last, and settles the outcome. -/
  fails : ∀ read ∈ reads, ∀ fault, t.Fails fault read →
    reads.getLast? = some read ∧ outcome = .error (fault.classify .module)
  /-- What is not found, the module is. -/
  missing : ∀ read ∈ reads, ∀ detail, t.Fails (.http 404 detail) read →
    outcome = .error (.invalidModule detail)
  addressing : ∀ names suffix, t.moduleNames = .ok names → t.suffix = .ok suffix →
    ∃ later, reads = .moduleNames :: .suffix :: later ∧ Addressing t q names suffix outcome later

variable {t : Answers} {q : HostnameQuery} {names : List String} {suffix : String}
  {outcome : Except Failure (List Segment)} {later reads : List Read}

theorem classify_module_eq_invalidModule {fault : Fault} {detail : String} :
    fault.classify .module = .invalidModule detail ↔ fault = .http 404 detail := by
  constructor
  · intro h
    cases fault with
    | http status d =>
      simp only [Fault.classify, Fault.classifyStatus] at h
      grind
    | rpc code d =>
      simp only [Fault.classify] at h
      split at h <;> cases h
    | _ => cases h
  · rintro rfl
    rfl

/-- Outside the applications of the default module alone, only one rule
addresses an instance. -/
theorem Addresses.of_index {segments i} (h : Addresses t q names suffix (.ok segments) later)
    (hother : names ≠ [defaultModule]) (hi : .index i ∈ segments) :
    q.module ∈ names ∧ q.index = some i ∧ ∃ version details count,
      q.version.name = some version ∧ t.versionDetails q.module version = .ok details ∧
      details.scaling = .manual count ∧ i < count ∧
      segments = [.index i, .version version, .module q.module, .suffix suffix] := by
  cases h with
  | single _ hsingle _ => exact absurd hsingle hother
  | @«instance» j version details count hmem _ hindex hname hdetails hscaling hcount =>
    obtain rfl : i = j := by simpa using hi
    exact ⟨hmem, hindex, version, details, count, hname, hdetails, hscaling, hcount, rfl⟩
  | explicit | current | fallback => simp at hi

/-- An instance that is asked for is looked up in the details of its version. -/
theorem Addresses.of_details {i version details}
    (h : Addresses t q names suffix outcome later) (hmem : q.module ∈ names)
    (hother : names ≠ [defaultModule]) (hindex : q.index = some i)
    (hname : q.version.name = some version)
    (hdetails : t.versionDetails q.module version = .ok details) :
    (∀ count, details.scaling ≠ .manual count) ∧ outcome = .error .noInstanceNames ∨
    ∃ count, details.scaling = .manual count ∧
      (count ≤ i ∧ outcome = .error (.instanceNotFound i q.module version) ∨
        i < count ∧
          outcome = .ok [.index i, .version version, .module q.module, .suffix suffix]) := by
  cases h <;> simp_all

theorem Addresses.addressing (h : Addresses t q names suffix outcome later) :
    Addressing t q names suffix outcome later where
  invalidModule := by
    cases h <;> simp_all [classify_module_eq_invalidModule, Answers.Fails, Failure.unknownVersion,
      Failure.moduleNotFound, Failure.noInstanceNames, Failure.instanceNotFound]
  absent hmem := by cases h <;> simp_all
  omits segments hok := by
    subst hok
    cases h <;> simp_all
  single hmem hsingle := by cases h <;> simp_all
  instance_iff hother i := by
    constructor
    · rintro ⟨segments, rfl, hi⟩
      obtain ⟨hmem, hindex, version, details, count, hname, hdetails, hscaling, hcount, -⟩ :=
        h.of_index hother hi
      exact ⟨hmem, hindex, version, details, count, hname, hdetails, hscaling, hcount⟩
    · rintro ⟨hmem, hindex, version, details, count, hname, hdetails, hscaling, hcount⟩
      rcases h.of_details hmem hother hindex hname hdetails with ⟨hnot, -⟩ | ⟨count', hs, hor⟩
      · exact absurd hscaling (hnot count)
      obtain rfl : count = count' := by simpa [hscaling] using hs
      rcases hor with ⟨hle, -⟩ | ⟨-, rfl⟩
      · exact absurd hcount (UInt32.not_lt.2 hle)
      · exact ⟨_, rfl, by simp⟩
  instance_segments hother i segments hok hi := by
    subst hok
    obtain ⟨-, -, version, -, -, hname, -, -, -, hsegments⟩ := h.of_index hother hi
    exact ⟨version, hname, hsegments⟩
  instance_reads hmem hother i hindex := by cases h <;> simp_all
  instance_fails hmem hother i hindex := by
    refine ⟨fun hname => by cases h <;> simp_all, fun version details hname hdetails => ?_⟩
    rcases h.of_details hmem hother hindex hname hdetails with ⟨hnot, rfl⟩ | ⟨count, hs, hor⟩
    · exact ⟨fun _ => rfl, fun count hscaling => absurd hscaling (hnot count)⟩
    · refine ⟨fun hnot => absurd hs (hnot count), fun count' hscaling hle => ?_⟩
      obtain rfl : count = count' := by simpa [hs] using hscaling
      rcases hor with ⟨-, rfl⟩ | ⟨hlt, -⟩
      · rfl
      · exact absurd hlt (UInt32.not_lt.2 hle)
  explicit hmem hother hindex version hversion := by cases h <;> simp_all
  current hmem hother hindex current hversion := by
    cases h with
    | namesFail _ _ _ _ hread =>
      exact ⟨rfl, fun versions hversions => by cases hversions.symm.trans hread⟩
    | current _ _ _ hcurrent hread hrun =>
      cases hversion.symm.trans hcurrent
      refine ⟨rfl, fun versions hversions => ?_⟩
      cases hversions.symm.trans hread
      simp [Option.filter, hrun]
    | fallback _ _ _ hcurrent hread hnot =>
      cases hversion.symm.trans hcurrent
      refine ⟨rfl, fun versions hversions => ?_⟩
      cases hversions.symm.trans hread
      cases current with
      | none => rfl
      | some version => simp [hnot version rfl]
    | _ => simp_all

theorem Addresses.later_cases (h : Addresses t q names suffix outcome later) :
    later = [] ∨ ∃ read, later = [read] ∧ read ≠ .moduleNames ∧ read ≠ .suffix ∧
      ∀ fault, t.Fails fault read → outcome = .error (fault.classify .module) := by
  cases h <;> simp_all [Answers.Fails]

theorem Resolves.fails (h : Resolves t q outcome reads) :
    ∀ read ∈ reads, ∀ fault, t.Fails fault read →
      reads.getLast? = some read ∧ outcome = .error (fault.classify .module) := by
  intro read hread fault hfails
  cases h with
  | unnamed hnames =>
    obtain rfl := List.mem_singleton.1 hread
    cases hfails.symm.trans hnames
    exact ⟨rfl, rfl⟩
  | unsuffixed hnames hsuffix =>
    simp only [List.mem_cons, List.not_mem_nil, or_false] at hread
    rcases hread with rfl | rfl
    · cases hfails.symm.trans hnames
    · cases hfails.symm.trans hsuffix
      exact ⟨rfl, rfl⟩
  | known hnames hsuffix h =>
    rcases List.mem_cons.1 hread with rfl | hread
    · cases hfails.symm.trans hnames
    rcases List.mem_cons.1 hread with rfl | hread
    · cases hfails.symm.trans hsuffix
    rcases h.later_cases with rfl | ⟨_, rfl, -, -, hlater⟩
    · cases hread
    · obtain rfl := List.mem_singleton.1 hread
      exact ⟨rfl, hlater fault hfails⟩

theorem Resolves.policy (h : Resolves t q outcome reads) : Policy t q outcome reads where
  names_first := by cases h <;> rfl
  suffix_next names hnames := by
    cases h with
    | unnamed hfails => cases hnames.symm.trans hfails
    | unsuffixed => exact ⟨[], rfl, Nat.zero_le 1⟩
    | known _ _ h =>
      refine ⟨_, rfl, ?_⟩
      rcases h.later_cases with rfl | ⟨_, rfl, -⟩ <;> simp
  once := by
    cases h with
    | unnamed | unsuffixed => simp
    | known _ _ h => rcases h.later_cases with rfl | ⟨_, rfl, hn, hs, -⟩ <;> simp_all [eq_comm]
  fails := h.fails
  missing read hread detail hfails := (h.fails read hread _ hfails).2
  addressing names suffix hnames hsuffix := by
    cases h with
    | unnamed hfails => cases hnames.symm.trans hfails
    | unsuffixed _ hfails => cases hsuffix.symm.trans hfails
    | @known names' suffix' _ later hnames' hsuffix' h =>
      cases hnames.symm.trans hnames'
      cases hsuffix.symm.trans hsuffix'
      exact ⟨later, rfl, h.addressing⟩

/-- **Hostnames are resolved by the addressing policy.** Whatever a source
answers to each read, from whatever state, a query comes to the hostname or the
failure of the policy, with the reads it allows. -/
theorem resolution_policy (source : Topology (StateM σ)) (s : σ) (q : HostnameQuery) :
    ∃ outcome reads, q.resolution source s = (Except.map joined outcome, reads) ∧
      Policy (source.answers s) q outcome reads := by
  obtain ⟨outcome, reads, heq, h⟩ := resolution_resolves source s q
  exact ⟨outcome, reads, heq, h.policy⟩

/-! ## Properties of resolutions -/

/-- What holds of decisions and of reads, and passes to sequences, holds of a
resolution. -/
theorem resolve_closed {m : Type → Type} [Monad m] {P : ∀ {α : Type}, ExceptT Failure m α → Prop}
    (hdecided : ∀ {α : Type} (x : Except Failure α), P (liftExcept x))
    (hbind : ∀ {α β : Type} (x : ExceptT Failure m α) (f : α → ExceptT Failure m β),
      P x → (∀ a, P (f a)) → P (x >>= f))
    (topology : Topology m) (q : HostnameQuery) (hnames : P (read topology.moduleNames))
    (hsuffix : P (read topology.suffix)) (hversions : P (read (topology.versionNames q.module)))
    (hdetails : ∀ version, P (read (topology.versionDetails q.module version))) :
    P (q.resolve topology) := by
  refine hbind _ _ hnames fun names => hbind _ _ hsuffix fun suffix => ?_
  unfold address
  by_cases hmem : q.module ∈ names
  case neg =>
    rw [if_pos hmem]
    exact hdecided (.error _)
  rw [if_neg (not_not_intro hmem)]
  by_cases hsingle : names = [defaultModule]
  · rw [if_pos hsingle]
    exact hdecided _
  rw [if_neg hsingle]
  cases q.index with
  | some i =>
    exact hbind _ _ (hdecided _) fun version => hbind _ _ (hdetails version) fun _ => hdecided _
  | none =>
    cases q.version with
    | explicit version => exact hdecided (.ok _)
    | current current => exact hbind _ _ hversions fun _ => hdecided (.ok _)

end HostnameQuery
end ControlPlane
