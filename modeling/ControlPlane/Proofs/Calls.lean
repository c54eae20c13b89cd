/-
The one call that an operation makes of a backend. `Operation.call` tells it,
or why there is none, from the arguments and the caller's identity alone; that
operations go by it, whatever backend they are made of and whatever that
answers, is `Client.perform_run`. A backend can have its calls noted down, so
that they can be counted.
-/
import ControlPlane.Proofs.Conditions

namespace ControlPlane

/-! ## Calls -/

/-- A call of a backend's method. -/
inductive Backend.Call
  | listModules
  | listVersions (module : String)
  | defaultVersion (module : String)
  | instanceCount (module version : String)
  | setInstanceCount (module version : String) (count : UInt32)
  | setServingStatus (module version : String) (status : ServingStatus)
  | hostname (query : HostnameQuery)
  deriving DecidableEq, Repr

namespace Backend

variable {m : Type → Type} [Monad m] {α : Type}

def perform (b : Backend m) : Call → ExceptT Failure m Answer
  | .listModules => .names <$> b.listModules
  | .listVersions module => .names <$> b.listVersions module
  | .defaultVersion module => .text <$> b.defaultVersion module
  | .instanceCount module version => .count <$> b.instanceCount module version
  | .setInstanceCount module version count =>
    (fun _ => .done) <$> b.setInstanceCount module version count
  | .setServingStatus module version status =>
    (fun _ => .done) <$> b.setServingStatus module version status
  | .hostname query => .text <$> b.hostname query

/-- Makes a call and notes it down. -/
def noted (call : Call) (x : ExceptT Failure m α) : ExceptT Failure (StateT (List Call) m) α :=
  ExceptT.mk fun calls => (·, calls ++ [call]) <$> x.run

/-- A backend whose calls are noted down. -/
def noting (b : Backend m) : Backend (StateT (List Call) m) where
  mode := b.mode
  listModules := noted .listModules b.listModules
  listVersions module := noted (.listVersions module) (b.listVersions module)
  defaultVersion module := noted (.defaultVersion module) (b.defaultVersion module)
  instanceCount module version := noted (.instanceCount module version)
    (b.instanceCount module version)
  setInstanceCount module version count := noted (.setInstanceCount module version count)
    (b.setInstanceCount module version count)
  setServingStatus module version status := noted (.setServingStatus module version status)
    (b.setServingStatus module version status)
  hostname query := noted (.hostname query) (b.hostname query)

theorem noted_run (call : Call) (x : ExceptT Failure m α) (calls : List Call) :
    (noted call x).run.run calls = (·, calls ++ [call]) <$> x.run :=
  rfl

variable [LawfulMonad m]

theorem noted_map {β : Type} (call : Call) (f : α → β) (x : ExceptT Failure m α) :
    f <$> noted call x = noted call (f <$> x) := by
  refine ExceptT.ext (StateT.ext fun calls => ?_)
  rw [ExceptT.run_map, StateT.run_map, noted_run, noted_run, ExceptT.run_map, ← comp_map,
    ← comp_map]
  rfl

/-- A call is noted down once, and comes to what it comes to without. -/
theorem noting_perform (b : Backend m) (call : Call) :
    b.noting.perform call = noted call (b.perform call) := by
  cases call <;> exact noted_map _ _ _

end Backend

/-! ## The call of an operation -/

namespace Identity

/-- The module that is meant: the one named, or the caller's own, or the one
every application has. -/
def moduleFor (i : Identity) (module : Option String) : String :=
  (module <|> i.module).getD defaultModule

/-- The version that is meant: the one named, or the caller's own. -/
def versionFor (i : Identity) (version : Option String) : Option String := version <|> i.version

/-- A call about a version, which has to be known. -/
def callFor (i : Identity) (module version : Option String)
    (call : String → String → Backend.Call) : Except Failure Backend.Call :=
  match i.versionFor version with
  | some version => .ok (call (i.moduleFor module) version)
  | none => .error (.unknownVersion (i.moduleFor module))

/-- The version a hostname is asked for. That of the caller need not be known. -/
def selectorFor (i : Identity) (version : Option String) : VersionSelector :=
  version.elim (.current i.version) .explicit

theorem selectorFor_eq_explicit {i : Identity} {version : Option String} {name : String} :
    i.selectorFor version = .explicit name ↔ version = some name := by
  cases version <;> simp [selectorFor]

theorem name_selectorFor (i : Identity) (version : Option String) :
    (i.selectorFor version).name = i.versionFor version := by
  cases version <;> rfl

end Identity

namespace Operation

/-- The call an operation makes for a caller, or why it makes none. -/
def call (i : Identity) : Operation → Except Failure Backend.Call
  | listModules => .ok .listModules
  | listVersions module => .ok (.listVersions (i.moduleFor module))
  | defaultVersion module => .ok (.defaultVersion (i.moduleFor module))
  | instanceCount module version => i.callFor module version .instanceCount
  | setInstanceCount count module version =>
    i.callFor module version (.setInstanceCount · · count)
  | startVersion module version => i.callFor module version (.setServingStatus · · .serving)
  | stopVersion module version => i.callFor module version (.setServingStatus · · .stopped)
  | hostname module version index => (parseInstance? index).map fun index =>
    .hostname ⟨i.moduleFor module, i.selectorFor version, index⟩

/-- How an operation ends, by what its call comes to. -/
def settled (op : Operation) : Except Failure Answer → Except Failure Answer
  | .ok answer => .ok answer
  | .error failure => op.settle failure

/-- The module and version arguments of an operation that needs a version. -/
def target? : Operation → Option (Option String × Option String)
  | instanceCount module version | setInstanceCount _ module version
  | startVersion module version | stopVersion module version => some (module, version)
  | _ => none

/-- The status that an operation moves a version to. -/
def status? : Operation → Option ServingStatus
  | startVersion _ _ => some .serving
  | stopVersion _ _ => some .stopped
  | _ => none

/-- Why an operation of a caller is refused without a call. -/
inductive Refused (i : Identity) : Operation → Failure → Prop
  | unversioned {op module} : op.target? = some (module, none) → i.version = none →
      Refused i op (.unknownVersion (i.moduleFor module))
  | malformed {module version raw} : (∀ index, parseInstance raw ≠ .ok index) →
      Refused i (.hostname module version (some raw)) (.malformedInstance raw)

theorem settled_of_ne {op : Operation} {outcome : Except Failure Answer}
    (h : op.status? = none ∨ ∀ detail, outcome ≠ .error (.unexpectedState detail)) :
    op.settled outcome = outcome := by
  cases outcome with
  | ok => rfl
  | error failure =>
    rcases h with h | h
    · cases op <;> first | rfl | cases h
    · refine settle_eq_error fun hkind => ?_
      cases failure with
      | unexpectedState detail => exact h detail rfl
      | _ => cases hkind

theorem settled_unexpectedState {op : Operation} (h : op.status? ≠ none) (detail : String) :
    op.settled (.error (.unexpectedState detail)) = .ok .done := by
  cases op <;> first | rfl | exact absurd rfl h

end Operation

namespace Client

variable {m : Type → Type} [Monad m]

/-- An operation as one call, or none if it is refused. -/
def oneCall (c : Client m) (op : Operation) : m (Except Failure Answer) :=
  match op.call c.identity with
  | .error failure => pure (.error failure)
  | .ok call => op.settled <$> (c.backend.perform call).run

omit [Monad m] in
theorem moduleOrCurrent_eq (c : Client m) (module : Option String) :
    c.moduleOrCurrent module = c.identity.moduleFor module := by
  cases module <;> rfl

omit [Monad m] in
theorem selector_eq (c : Client m) (version : Option String) :
    c.selector version = c.identity.selectorFor version := by
  cases version <;> rfl

variable [LawfulMonad m]

/-- An operation that moves no version to a status ends as its call does. -/
theorem settled_map {op : Operation} (h : op.status? = none) (x : m (Except Failure Answer)) :
    op.settled <$> x = x := by
  have hid : op.settled = id := funext fun _ => Operation.settled_of_ne (.inl h)
  rw [hid, id_map]

/-- To absorb the failure of a change is to settle the operation that makes it. -/
theorem absorb_run {op : Operation} {status : ServingStatus} (h : op.status? = some status)
    (change : ExceptT Failure m Unit) :
    ((fun _ => Answer.done) <$> absorbUnexpectedState change).run =
      op.settled <$> ((fun _ => Answer.done) <$> change).run := by
  rw [ExceptT.run_map, ExceptT.run_map, absorbUnexpectedState_run, ← comp_map, ← comp_map]
  have hsettled : Except.map (fun _ => Answer.done) ∘ absorbed =
      op.settled ∘ Except.map fun _ => Answer.done := by
    funext outcome
    cases op <;> cases h <;> rcases outcome with (_ | _ | _ | _ | _ | _) | _ <;> rfl
  rw [hsettled]

/-- An operation that needs a version is its call, once there is one. -/
theorem versionOrCurrent_bind_run {c : Client m} {op : Operation} {module version : Option String}
    {x : String → ExceptT Failure m Answer} (call : String → String → Backend.Call)
    (hcall : op.call c.identity = c.identity.callFor module version call)
    (hx : ∀ version, (x version).run =
      op.settled <$> (c.backend.perform (call (c.identity.moduleFor module) version)).run) :
    (c.versionOrCurrent (c.identity.moduleFor module) version >>= x).run = c.oneCall op := by
  rw [oneCall, hcall, Identity.callFor, versionOrCurrent, Identity.versionFor]
  cases version <|> c.identity.version with
  | some version =>
    rw [pure_bind]
    exact hx version
  | none => rw [ExceptT.run_bind, ExceptT.run_throw, pure_bind]

/-- An operation is its one call. -/
theorem perform_run (c : Client m) (op : Operation) : (c.perform op).run = c.oneCall op := by
  cases op with
  | listModules => exact (settled_map rfl _).symm
  | listVersions module =>
    rw [perform, listVersions, moduleOrCurrent_eq]
    exact (settled_map rfl _).symm
  | defaultVersion module =>
    rw [perform, defaultVersion, moduleOrCurrent_eq]
    exact (settled_map rfl _).symm
  | instanceCount module version =>
    simp only [perform, instanceCount, map_bind, moduleOrCurrent_eq]
    exact versionOrCurrent_bind_run .instanceCount rfl fun version => (settled_map rfl _).symm
  | setInstanceCount count module version =>
    simp only [perform, setInstanceCount, map_bind, moduleOrCurrent_eq]
    exact versionOrCurrent_bind_run (.setInstanceCount · · count) rfl
      fun version => (settled_map rfl _).symm
  | startVersion module version =>
    simp only [perform, startVersion, setServingStatus, map_bind, moduleOrCurrent_eq]
    exact versionOrCurrent_bind_run (.setServingStatus · · .serving) rfl
      fun version => absorb_run rfl _
  | stopVersion module version =>
    simp only [perform, stopVersion, setServingStatus, map_bind, moduleOrCurrent_eq]
    exact versionOrCurrent_bind_run (.setServingStatus · · .stopped) rfl
      fun version => absorb_run rfl _
  | hostname module version index =>
    rw [perform, hostname, moduleOrCurrent_eq, selector_eq, oneCall, Operation.call]
    cases parseInstance? index with
    | error failure => rw [ExceptT.run_map, ExceptT.run_throw, map_pure]; rfl
    | ok index => exact (settled_map rfl _).symm

/-- Over a backend whose calls are noted down, an operation notes down its own. -/
theorem noting_perform_run (c : Client m) (op : Operation) (calls : List Backend.Call) :
    ((Client.mk c.backend.noting c.identity).perform op).run.run calls =
      match op.call c.identity with
      | .error failure => pure (.error failure, calls)
      | .ok call => (fun outcome => (op.settled outcome, calls ++ [call])) <$>
          (c.backend.perform call).run := by
  rw [perform_run, oneCall]
  cases op.call c.identity with
  | error failure => rfl
  | ok call =>
    simp only [Backend.noting_perform, StateT.run_map, Backend.noted_run]
    exact (comp_map _ _ _).symm

end Client

namespace Operation

variable {i : Identity}

theorem callFor_eq_error {module version : Option String} {call : String → String → Backend.Call}
    {failure : Failure} : i.callFor module version call = .error failure ↔
      version = none ∧ i.version = none ∧ failure = .unknownVersion (i.moduleFor module) := by
  unfold Identity.callFor Identity.versionFor
  cases version <;> cases i.version <;> simp [eq_comm]

theorem parseInstance?_eq_error {index : Option String} {failure : Failure} :
    parseInstance? index = .error failure ↔ ∃ raw, index = some raw ∧
      (∀ index, parseInstance raw ≠ .ok index) ∧ failure = .malformedInstance raw := by
  cases index with
  | none => simp [parseInstance?]
  | some raw =>
    simp only [parseInstance?, parseInstance, Option.some.injEq, exists_eq_left']
    cases Decimal.unsigned? (UInt32.size - 1) (Text.trimChars raw.toList) with
    | some => simp [Except.map]
    | none => simp [Except.map, eq_comm]

/-- A hostname is asked for by the number of its instance. -/
theorem call_of_parseInstance? {i : Identity} {module version raw : Option String}
    {index : Option UInt32} (h : parseInstance? raw = .ok index) :
    (hostname module version raw).call i =
      .ok (.hostname ⟨i.moduleFor module, i.selectorFor version, index⟩) := by
  rw [call, h]
  rfl

theorem call_of_target {op : Operation} {module version : Option String}
    (h : op.target? = some (module, version)) :
    ∃ call, op.call i = i.callFor module version call := by
  cases op with
  | instanceCount => cases h; exact ⟨.instanceCount, rfl⟩
  | setInstanceCount count => cases h; exact ⟨(.setInstanceCount · · count), rfl⟩
  | startVersion => cases h; exact ⟨(.setServingStatus · · .serving), rfl⟩
  | stopVersion => cases h; exact ⟨(.setServingStatus · · .stopped), rfl⟩
  | _ => cases h

/-- An operation is refused for what it lacks, and for nothing else. -/
theorem call_eq_error {op : Operation} {failure : Failure} :
    op.call i = .error failure ↔ op.Refused i failure := by
  constructor
  · intro h
    cases htarget : op.target? with
    | some target =>
      obtain ⟨module, version⟩ := target
      obtain ⟨call, hcall⟩ := call_of_target (i := i) htarget
      obtain ⟨rfl, hversion, rfl⟩ := callFor_eq_error.1 (hcall.symm.trans h)
      exact .unversioned htarget hversion
    | none =>
      cases op with
      | hostname module version index =>
        rw [call] at h
        cases hindex : parseInstance? index with
        | ok => rw [hindex] at h; cases h
        | error =>
          rw [hindex] at h
          cases h
          obtain ⟨raw, rfl, hraw, rfl⟩ := parseInstance?_eq_error.1 hindex
          exact .malformed hraw
      | listModules | listVersions | defaultVersion => cases h
      | _ => cases htarget
  · rintro (⟨htarget, hversion⟩ | hraw)
    · obtain ⟨call, hcall⟩ := call_of_target (i := i) htarget
      exact hcall.trans (callFor_eq_error.2 ⟨rfl, hversion, rfl⟩)
    · rw [call, parseInstance?_eq_error.2 ⟨_, rfl, hraw, rfl⟩]
      rfl

end Operation

/-- **One call for each operation.** Whatever backend a client is made of, an
operation is one call of one method, made once, with the caller's module and
version in the place of those that are not named; and it ends as that call
does, but that a version may be in the wanted status already. It is refused
without a call only for a version nobody knows or an instance that cannot be
read; to ask for a hostname no version need be known. A name that is given is
passed on as it is, the empty one too. -/
theorem operation_is_one_call (i : Identity) (op : Operation) :
    (∀ {m : Type → Type} [Monad m] [LawfulMonad m] (b : Backend m),
      ((Client.mk b i).perform op).run = (match op.call i with
        | .error failure => pure (.error failure)
        | .ok call => op.settled <$> (b.perform call).run) ∧
      ∀ calls, ((Client.mk b.noting i).perform op).run.run calls = match op.call i with
        | .error failure => pure (.error failure, calls)
        | .ok call => (fun outcome => (op.settled outcome, calls ++ [call])) <$>
            (b.perform call).run) ∧
    (∀ failure, op.call i = .error failure ↔ op.Refused i failure) ∧
    (∀ outcome, (op.status? = none ∨ ∀ detail, outcome ≠ .error (.unexpectedState detail)) →
      op.settled outcome = outcome) ∧
    (∀ detail, op.status? ≠ none → op.settled (.error (.unexpectedState detail)) = .ok .done) ∧
    ∀ name, i.moduleFor (some name) = name ∧ i.versionFor (some name) = some name ∧
      ∀ version, i.selectorFor version = .explicit name ↔ version = some name :=
  ⟨fun b => ⟨Client.perform_run ⟨b, i⟩ op, Client.noting_perform_run ⟨b, i⟩ op⟩,
    fun _ => Operation.call_eq_error, fun _ => Operation.settled_of_ne,
    fun detail h => Operation.settled_unexpectedState h detail,
    fun _ => ⟨rfl, rfl, fun _ => Identity.selectorFor_eq_explicit⟩⟩

/-- A backend that fails at everything in one way. -/
def Backend.failing (failure : Failure) : Backend Id where
  mode := .legacy
  listModules := throw failure
  listVersions _ := throw failure
  defaultVersion _ := throw failure
  instanceCount _ _ := throw failure
  setInstanceCount _ _ _ := throw failure
  setServingStatus _ _ _ := throw failure
  hostname _ := throw failure

/-- A caller that knows its module and no version. -/
theorem operation_is_one_call_unversioned :
    let c : Client (StateT (List Backend.Call) Id) :=
      ⟨(Backend.failing (.unexpectedState "already")).noting, { module := some "api" }⟩
    (c.perform (.startVersion none (some "v1"))).run.run [] =
      (.ok .done, [.setServingStatus "api" "v1" .serving]) ∧
    (c.perform (.startVersion (some "") none)).run.run [] = (.error (.unknownVersion ""), []) ∧
    (c.perform (.hostname none none (some "1"))).run.run [] =
      (.error (.unexpectedState "already"), [.hostname ⟨"api", .current none, some 1⟩]) := by
  intro c
  have hcalls (op : Operation) := ((operation_is_one_call { module := some "api" } op).1
    (Backend.failing (.unexpectedState "already"))).2 []
  exact ⟨hcalls _, hcalls _, hcalls _⟩

end ControlPlane
