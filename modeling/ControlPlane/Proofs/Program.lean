/-
The program from its words to what it prints. An accepted command line asks for
one operation, with the arguments that its words give (`Asks`); the program makes
the requests of that operation and prints all of its answer, or the failure and
nothing of an answer (`Shown`).
-/
import ControlPlane.CommandLine.Program
import ControlPlane.Proofs.Decimal
import ControlPlane.Proofs.Dialogue
import ControlPlane.Proofs.Words

namespace ControlPlane.CommandLine

open Dialogue (Server run run_map)
open Fallible
open Given (valueOf isGiven)

/-! ## What the words give -/

section Given

variable {σ : Type}

/-- The option of something given, if it is one. -/
def Given.option? : Given σ → Option (OptionSpec σ)
  | flag option | value option _ => some option
  | operand _ => none

/-- All options of what is given are those of a grammar. -/
def Known (options : List (OptionSpec σ)) (items : List (Given σ)) : Prop :=
  ∀ item ∈ items, ∀ option ∈ item.option?, option ∈ options

variable {options : List (OptionSpec σ)} {g : Grammar σ}

theorem Known.nil : Known options [] := nofun

theorem Known.cons {item : Given σ} {items : List (Given σ)}
    (h : ∀ option ∈ item.option?, option ∈ options) (hitems : Known options items) :
    Known options (item :: items) :=
  List.forall_mem_cons.2 ⟨h, hitems⟩

theorem Known.append {items items' : List (Given σ)} (h : Known options items)
    (h' : Known options items') : Known options (items ++ items') :=
  List.forall_mem_append.2 ⟨h, h'⟩

theorem Known.of_value {option : OptionSpec σ} (hmem : option ∈ options) (v : String)
    {items : List (Given σ)} (hitems : Known options items) :
    Known options (.value option v :: items) :=
  .cons (by simpa [Given.option?] using hmem) hitems

theorem Known.of_flag {option : OptionSpec σ} (hmem : option ∈ options) {items : List (Given σ)}
    (hitems : Known options items) : Known options (.flag option :: items) :=
  .cons (by simpa [Given.option?] using hmem) hitems

theorem Grammar.SpellsLetters.known {cs : List Char} {items : List (Given σ)}
    {wanting : Option (OptionSpec σ)} (h : g.SpellsLetters cs items wanting) :
    Known g.options items ∧ ∀ option ∈ wanting, option ∈ g.options := by
  induction h with
  | nil => exact ⟨.nil, nofun⟩
  | flag hmem _ _ _ ih => exact ⟨.of_flag hmem ih.1, ih.2⟩
  | wanting hmem _ _ => exact ⟨.nil, by simpa using hmem⟩
  | attached hmem _ _ _ | assigned hmem _ _ => exact ⟨.of_value hmem _ .nil, nofun⟩

theorem Grammar.SpellsOption.known {cs : List Char} {items : List (Given σ)}
    {wanting : Option (OptionSpec σ)} (h : g.SpellsOption cs items wanting) :
    Known g.options items ∧ ∀ option ∈ wanting, option ∈ g.options := by
  cases h with
  | flag hmem _ => exact ⟨.of_flag hmem .nil, nofun⟩
  | wanting hmem _ => exact ⟨.nil, by simpa using hmem⟩
  | assigned hmem _ => exact ⟨.of_value hmem _ .nil, nofun⟩
  | letters _ h => exact h.known

theorem Grammar.Spells.known {words : List String} {items : List (Given σ)}
    {tail : Option (String × List String)} (h : g.Spells words items tail) :
    Known g.options items := by
  induction h with
  | nil | command => exact .nil
  | operands rest =>
    intro item hitem
    obtain ⟨v, -, rfl⟩ := List.mem_map.1 hitem
    exact nofun
  | operand _ _ _ ih => exact .cons nofun ih
  | option hword _ ih => exact hword.known.1.append ih
  | wanting hword _ _ ih => exact hword.known.1.append (.of_value (hword.known.2 _ rfl) _ ih)

/-- Without commands to follow, the words go on to their end. -/
theorem Grammar.Spells.tail_eq_none (hcommands : g.commands = []) {words : List String}
    {items : List (Given σ)} {tail : Option (String × List String)}
    (h : g.Spells words items tail) : tail = none := by
  induction h with
  | nil | operands => rfl
  | command hmem => simp [hcommands] at hmem
  | operand _ _ _ ih | option _ _ ih | wanting _ _ _ ih => exact ih

theorem valueOf_append (name : String) (items items' : List (Given σ)) :
    valueOf name (items ++ items') = (valueOf name items).or (valueOf name items') :=
  List.findSome?_append

theorem isGiven_append (name : String) (items items' : List (Given σ)) :
    isGiven name (items ++ items') = (isGiven name items || isGiven name items') :=
  List.any_append

end Given

theorem setOnce_eq_ok {α : Type} {old : Option α} {new : α} {set : Option α} :
    setOnce old new = .ok set ↔ old = none ∧ set = some new := by
  cases old <;> simp [setOnce, eq_comm]

/-! ## The arguments of a command -/

/-- The options of all commands. -/
def argumentOptions : List (OptionSpec Arguments) :=
  [helpOption, Arguments.moduleOption, Arguments.targetVersionOption, Arguments.indexOption]

/-- What has been given is put to the arguments that were there. -/
structure Arguments.Adds (items : List (Given Arguments)) (a a' : Arguments) : Prop where
  module : a'.module = a.module.or (valueOf "module" items)
  version : a'.version = a.version.or (valueOf "version" items)
  index : a'.index = a.index.or (valueOf "instance" items)
  count : ∀ n, a'.count = some n →
    a.count = some n ∨ ∃ v, .operand v ∈ items ∧ Decimal.Signed v.toList n.toNat

namespace Arguments

theorem Adds.nil (a : Arguments) : Adds [] a a where
  module := by simp [valueOf]
  version := by simp [valueOf]
  index := by simp [valueOf]
  count _ h := .inl h

theorem Adds.append {items items' : List (Given Arguments)} {a b c : Arguments}
    (h : Adds items a b) (h' : Adds items' b c) : Adds (items ++ items') a c where
  module := by rw [h'.module, h.module, valueOf_append, Option.or_assoc]
  version := by rw [h'.version, h.version, valueOf_append, Option.or_assoc]
  index := by rw [h'.index, h.index, valueOf_append, Option.or_assoc]
  count n hn := by
    rcases h'.count n hn with hb | ⟨v, hv, hspells⟩
    · rcases h.count n hb with ha | ⟨v, hv, hspells⟩
      · exact .inl ha
      · exact .inr ⟨v, List.mem_append_left _ hv, hspells⟩
    · exact .inr ⟨v, List.mem_append_right _ hv, hspells⟩

theorem setCount_eq_ok {v : String} {a a' : Arguments} (h : setCount v a = .ok a') :
    ∃ n : UInt32, Decimal.Signed v.toList n.toNat ∧ a' = { a with count := some n } := by
  unfold setCount at h
  split at h
  · next n hread =>
    obtain ⟨hspells, -⟩ := Decimal.signed?_eq_some_iff.1 hread
    split at h
    · next hrange =>
      obtain ⟨count, hcount, heq⟩ := bind_eq_ok.1 h
      obtain ⟨-, rfl⟩ := setOnce_eq_ok.1 hcount
      cases heq
      have hvalue : ((UInt32.ofNat n.toNat).toNat : Int) = n := by
        rw [UInt32.toNat_ofNat_of_lt' (by omega)]
        omega
      exact ⟨_, by rwa [hvalue], rfl⟩
    · cases h
  · cases h

theorem adds_of_take {g : Grammar Arguments}
    (hoperand : ∀ v a a', g.operand v a = .ok a' → setCount v a = .ok a') {item : Given Arguments}
    (hknown : ∀ option ∈ item.option?, option ∈ argumentOptions) {a a' : Arguments}
    (h : g.take a item = .ok a') : Adds [item] a a' := by
  cases item with
  | operand v =>
    obtain ⟨n, hn, rfl⟩ := setCount_eq_ok (hoperand v a a' h)
    exact
      { module := by simp [valueOf]
        version := by simp [valueOf]
        index := by simp [valueOf]
        count := fun m hm => by
          cases hm
          exact .inr ⟨v, List.mem_singleton.2 rfl, hn⟩ }
  | flag option =>
    have hmem : option ∈ argumentOptions := hknown option rfl
    simp only [argumentOptions, List.mem_cons, List.not_mem_nil, or_false] at hmem
    rcases hmem with rfl | rfl | rfl | rfl <;> cases h
  | value option v =>
    have hmem : option ∈ argumentOptions := hknown option rfl
    simp only [argumentOptions, List.mem_cons, List.not_mem_nil, or_false] at hmem
    rcases hmem with rfl | rfl | rfl | rfl
    · cases h
    all_goals
      obtain ⟨set, hset, heq⟩ := bind_eq_ok.1 h
      obtain ⟨hnone, rfl⟩ := setOnce_eq_ok.1 hset
      cases heq
      constructor <;> simp [valueOf, moduleOption, targetVersionOption, indexOption, hnone]

theorem adds_of_foldlM {g : Grammar Arguments}
    (hoperand : ∀ v a a', g.operand v a = .ok a' → setCount v a = .ok a')
    {items : List (Given Arguments)} (hknown : Known argumentOptions items) {a a' : Arguments}
    (h : items.foldlM g.take a = .ok a') : Adds items a a' := by
  induction items generalizing a with
  | nil =>
    cases h
    exact .nil _
  | cons item items ih =>
    obtain ⟨hitem, hitems⟩ := List.forall_mem_cons.1 hknown
    obtain ⟨mid, hmid, h⟩ := foldlM_cons_eq_ok.1 h
    exact (adds_of_take hoperand hitem hmid).append (ih hitems h)

end Arguments

/-! ## Commands -/

/-- What a command asks for, with what is given after it: an argument is absent
where its option is, and whatever text its option has, were it empty. -/
inductive Asks (items : List (Given Arguments)) : String → Command → Prop
  | modules : Asks items "modules" (.perform .listModules)
  | versions : Asks items "versions" (.perform (.listVersions (valueOf "module" items)))
  | defaultVersion :
      Asks items "default-version" (.perform (.defaultVersion (valueOf "module" items)))
  | instances : Asks items "instances"
      (.perform (.instanceCount (valueOf "module" items) (valueOf "version" items)))
  | setInstances {v : String} {count : UInt32} : .operand v ∈ items →
      Decimal.Signed v.toList count.toNat → Asks items "set-instances"
        (.perform (.setInstanceCount count (valueOf "module" items) (valueOf "version" items)))
  | start : Asks items "start"
      (.perform (.startVersion (valueOf "module" items) (valueOf "version" items)))
  | stop : Asks items "stop"
      (.perform (.stopVersion (valueOf "module" items) (valueOf "version" items)))
  | hostname : Asks items "hostname" (.perform
      (.hostname (valueOf "module" items) (valueOf "version" items) (valueOf "instance" items)))
  | whoami : Asks items "whoami" .whoami

theorem command_options : ∀ spec ∈ commands, ∀ option ∈ spec.grammar.options,
    option ∈ argumentOptions := by
  simp [commands, CommandSpec.plain, CommandSpec.setInstances, CommandSpec.target, argumentOptions]

theorem command_operand : ∀ spec ∈ commands, ∀ v a a', spec.grammar.operand v a = .ok a' →
    Arguments.setCount v a = .ok a' := by
  simp [commands, CommandSpec.plain, CommandSpec.setInstances]

theorem command_commands : ∀ spec ∈ commands, spec.grammar.commands = [] := by
  simp [commands, CommandSpec.plain, CommandSpec.setInstances]

theorem asks_of_make {spec : CommandSpec} (hspec : spec ∈ commands) {items : List (Given Arguments)}
    {a : Arguments} (hadds : Arguments.Adds items {} a) {c : Command} (h : spec.make a = .ok c) :
    Asks items spec.name c := by
  have hmodule : a.module = valueOf "module" items := hadds.module
  have hversion : a.version = valueOf "version" items := hadds.version
  have hindex : a.index = valueOf "instance" items := hadds.index
  simp only [commands, List.mem_cons, List.not_mem_nil, or_false] at hspec
  rcases hspec with rfl | rfl | rfl | rfl | rfl | rfl | rfl | rfl | rfl
  case inr.inr.inr.inr.inl =>
    simp only [CommandSpec.setInstances] at h
    split at h
    · next count hcount =>
      cases h
      rcases hadds.count count hcount with hnone | ⟨v, hv, hspells⟩
      · cases hnone
      · rw [hmodule, hversion]
        exact .setInstances hv hspells
    · cases h
  all_goals
    cases h
    simp only [CommandSpec.plain, hmodule, hversion, hindex]
    constructor

/-- A command that is read is one of those there are, and asks for what its words
give. -/
theorem asks_of_readCommand {name : String} {words : List String} {c : Command}
    (h : readCommand name words = .ok c) : ∃ spec ∈ commands, spec.name = name ∧
      ∃ items, spec.grammar.Spells words items none ∧ Asks items name c := by
  unfold readCommand at h
  split at h
  · next spec hfind =>
    have hspec := List.mem_of_find?_eq_some hfind
    have hname : spec.name = name := by simpa using List.find?_some hfind
    obtain ⟨⟨a, tail⟩, hread, hmake⟩ := bind_eq_ok.1 h
    obtain ⟨items, hspells, hitems⟩ := Grammar.spells_of_read hread
    cases hspells.tail_eq_none (command_commands spec hspec)
    have hknown : Known argumentOptions items := fun item hitem option hoption =>
      command_options spec hspec option (hspells.known item hitem option hoption)
    have hadds := Arguments.adds_of_foldlM (command_operand spec hspec) hknown hitems
    exact ⟨spec, hspec, hname, items, hspells, hname ▸ asks_of_make hspec hadds hmake⟩
  · cases h

/-! ## The whole line -/

/-- What has been given in front of a command is put to what was there. -/
structure Common.Adds (items : List (Given Common)) (c c' : Common) : Prop where
  config : c'.config = c.config.or (valueOf "config" items)
  admin : c'.admin = (c.admin || isGiven "admin" items)

namespace Common

theorem Adds.append {items items' : List (Given Common)} {a b c : Common} (h : Adds items a b)
    (h' : Adds items' b c) : Adds (items ++ items') a c where
  config := by rw [h'.config, h.config, valueOf_append, Option.or_assoc]
  admin := by rw [h'.admin, h.admin, isGiven_append, Bool.or_assoc]

theorem adds_of_take {item : Given Common}
    (hknown : ∀ option ∈ item.option?, option ∈ commonGrammar.options) {c c' : Common}
    (h : commonGrammar.take c item = .ok c') : Adds [item] c c' := by
  cases item with
  | operand v => cases h
  | flag option =>
    have hmem : option ∈ commonGrammar.options := hknown option rfl
    simp only [commonGrammar, List.mem_cons, List.not_mem_nil, or_false] at hmem
    rcases hmem with rfl | rfl | rfl | rfl | rfl
    · cases h
    · cases h
    · cases h
    · change setAdmin c = .ok c' at h
      unfold setAdmin at h
      split at h
      · cases h
      · cases h
        constructor <;> simp [valueOf, isGiven]
    · cases h
      constructor <;> simp [valueOf, isGiven]
  | value option v =>
    have hmem : option ∈ commonGrammar.options := hknown option rfl
    simp only [commonGrammar, List.mem_cons, List.not_mem_nil, or_false] at hmem
    rcases hmem with rfl | rfl | rfl | rfl | rfl
    · cases h
    · cases h
    · change setConfig v c = .ok c' at h
      unfold setConfig at h
      split at h
      · cases h
      · obtain ⟨set, hset, heq⟩ := bind_eq_ok.1 h
        obtain ⟨hnone, rfl⟩ := setOnce_eq_ok.1 hset
        cases heq
        constructor <;> simp [valueOf, isGiven, hnone]
    · cases h
    · cases h

theorem adds_of_foldlM {items : List (Given Common)} (hknown : Known commonGrammar.options items)
    {c c' : Common} (h : items.foldlM commonGrammar.take c = .ok c') : Adds items c c' := by
  induction items generalizing c with
  | nil =>
    cases h
    constructor <;> simp [valueOf, isGiven]
  | cons item items ih =>
    obtain ⟨hitem, hitems⟩ := List.forall_mem_cons.1 hknown
    obtain ⟨mid, hmid, h⟩ := foldlM_cons_eq_ok.1 h
    exact (adds_of_take hitem hmid).append (ih hitems h)

end Common

namespace Invocation

/-- What the words of an accepted line say: options for all commands, the name of
a command, and what is given to that. -/
structure Says (words : List String) (front : List (Given Common)) (name : String)
    (items : List (Given Arguments)) (i : Invocation) : Prop where
  spells : ∃ rest, commonGrammar.Spells words front (some (name, rest)) ∧
    ∃ spec ∈ commands, spec.name = name ∧ spec.grammar.Spells rest items none
  config : i.config = valueOf "config" front
  admin : i.admin = isGiven "admin" front
  asks : Asks items name i.command

theorem says_of_read {words : List String} {i : Invocation} (h : read words = .ok i) :
    ∃ front name items, Says words front name items i := by
  obtain ⟨⟨common, tail⟩, hread, h⟩ := bind_eq_ok.1 h
  obtain ⟨front, hfront, htaken⟩ := Grammar.spells_of_read hread
  have hadds := Common.adds_of_foldlM hfront.known htaken
  cases tail with
  | none => cases h
  | some tail =>
    obtain ⟨name, rest⟩ := tail
    dsimp only at h
    split at h
    · cases h
    · obtain ⟨command, hcommand, heq⟩ := bind_eq_ok.1 h
      cases heq
      obtain ⟨spec, hspec, hname, items, hspells, hasks⟩ := asks_of_readCommand hcommand
      exact ⟨front, name, items,
        { spells := ⟨rest, hfront, spec, hspec, hname, hspells⟩
          config := hadds.config
          admin := hadds.admin
          asks := hasks }⟩

/-! ## Before the command -/

variable {i : Invocation} {file : Option Bytes} {environment : List (String × String)}

/-- Without an access there is a failure, and nothing but that is printed. -/
theorem access_eq_error {out : Output} (h : i.access file environment = .error out) :
    out.exit ≠ 0 ∧ out.stdout = "" := by
  unfold access at h
  split at h
  · cases h
    exact ⟨Nat.one_ne_zero, rfl⟩
  · next settings _ =>
    cases haccess : Access.ofSettings settings (environment.lookup ·) with
    | ok => simp [haccess, Except.mapError] at h
    | error e =>
      rw [haccess] at h
      cases h
      exact ⟨Nat.one_ne_zero, rfl⟩

/-- The access is that of the settings, but for which backend it is to. -/
theorem access_eq_ok {access : Access} (h : i.access file environment = .ok access) :
    ∃ s, Settings.load file environment = .ok s ∧
      Access.ofSettings { s with useAdminApi := i.admin || s.useAdminApi } (environment.lookup ·) =
        .ok access := by
  unfold Invocation.access at h
  split at h
  · cases h
  · next settings hsettings =>
    obtain ⟨s, hload, rfl⟩ := map_eq_ok.1 hsettings
    refine ⟨s, hload, ?_⟩
    have hflag : (if i.admin then { s with useAdminApi := true } else s) =
        { s with useAdminApi := i.admin || s.useAdminApi } := by
      cases i.admin <;> rfl
    rw [← hflag]
    exact mapError_eq_ok.1 h

theorem admin_of_access {access : Access} (hadmin : i.admin = true)
    (h : i.access file environment = .ok access) :
    ∃ project endpoint, access = .admin project endpoint := by
  obtain ⟨s, -, hsettings⟩ := access_eq_ok h
  have hmode : Settings.mode { s with useAdminApi := i.admin || s.useAdminApi } = .admin := by
    simp [Settings.mode, Mode.ofFlag, hadmin]
  unfold Access.ofSettings at hsettings
  rw [hmode] at hsettings
  dsimp only at hsettings
  split at hsettings
  · cases hsettings
  · split at hsettings
    · cases hsettings
      exact ⟨_, _, rfl⟩
    · cases hsettings

end Invocation

/-! ## What is printed -/

/-- All of an answer: each name on a line of its own, in order; a text or a number
on one line; and nothing where there is nothing to tell. -/
inductive Printed : Operation → Answer → List Char → Prop
  | listModules {names} :
      Printed .listModules (.names names) (names.flatMap (·.toList ++ ['\n']))
  | listVersions {module names} :
      Printed (.listVersions module) (.names names) (names.flatMap (·.toList ++ ['\n']))
  | defaultVersion {module version} :
      Printed (.defaultVersion module) (.text version) (version.toList ++ ['\n'])
  | instanceCount {module version count digits} : Decimal.Written digits count.toNat →
      Printed (.instanceCount module version) (.count count) (digits ++ ['\n'])
  | setInstanceCount {count module version} :
      Printed (.setInstanceCount count module version) .done []
  | startVersion {module version} : Printed (.startVersion module version) .done []
  | stopVersion {module version} : Printed (.stopVersion module version) .done []
  | hostname {module version index host} :
      Printed (.hostname module version index) (.text host) (host.toList ++ ['\n'])

/-- Operations that change something. -/
def Changes (op : Operation) : Prop :=
  op.name ∈ ["set_instance_count", "start_version", "stop_version"]

instance (op : Operation) : Decidable (Changes op) := inferInstanceAs (Decidable (_ ∈ _))

/-- How an operation is shown to have gone. What changes something fails under
its name, with the failure below as the cause; everything else with the failure
itself. -/
inductive Shown (op : Operation) : Except Failure Answer → Output → Prop
  | answer {a printed} : Printed op a printed →
      Shown op (.ok a) { exit := 0, stdout := String.ofList printed, stderr := "" }
  | failure {f} : ¬ Changes op →
      Shown op (.error f) { exit := 1, stdout := "", stderr := "Error: " ++ f.text ++ "\n" }
  | cause {f : Failure} {cause : String} : Changes op →
      cause.toList = (f.text.toList.flatMap fun c => if c = '\n' then "\n    ".toList else [c]) →
      Shown op (.error f)
        { exit := 1, stdout := "",
          stderr := "Error: " ++ op.name ++ " failed\n\nCaused by:\n    " ++ cause ++ "\n" }

theorem toList_join_lines (names : List String) :
    (String.join (names.map line)).toList = names.flatMap (·.toList ++ ['\n']) := by
  simp [line, String.toList_join, List.flatMap_map]

/-- What an operation answers is what its kind answers, and all of it is printed. -/
theorem printed_of_perform (c : Client Exchange) (op : Operation) :
    Dialogue.Gives (fun a => Printed op a (answerText a).toList) (c.perform op) := by
  have hmap {α : Type} {g : α → Answer} {x : ExceptT Failure Exchange α} {P : Answer → Prop}
      (h : ∀ a, P (g a)) : Dialogue.Gives P (g <$> x) := by
    intro received b rest heq
    obtain ⟨a, -, rfl⟩ := Dialogue.Gives.map (P := fun _ => True) g (fun _ _ _ _ => trivial) heq
    exact h a
  have hline (s : String) : (line s).toList = s.toList ++ ['\n'] := by simp [line]
  cases op <;> refine hmap fun a => ?_
  case listModules =>
    rw [answerText, toList_join_lines]
    exact .listModules
  case listVersions =>
    rw [answerText, toList_join_lines]
    exact .listVersions
  case defaultVersion =>
    rw [answerText, hline]
    exact .defaultVersion
  case instanceCount =>
    rw [answerText, hline]
    exact .instanceCount (Decimal.text_written _)
  case setInstanceCount => exact .setInstanceCount
  case startVersion => exact .startVersion
  case stopVersion => exact .stopVersion
  case hostname =>
    rw [answerText, hline]
    exact .hostname

/-- An operation's answer is printed in one way. -/
theorem Printed.unique {op : Operation} {a : Answer} {cs cs' : List Char} (h : Printed op a cs)
    (h' : Printed op a cs') : cs = cs' := by
  cases h <;> cases h'
  case instanceCount.instanceCount hdigits _ hdigits' =>
    rw [hdigits.digits_eq, hdigits'.digits_eq]
  all_goals rfl

/-- What a command fails with whose operation fails. -/
def troubleOf (op : Operation) (f : Failure) : Trouble :=
  ⟨f, if Changes op then some s!"{op.name} failed" else none⟩

theorem map_adapt {α β : Type} (g : α → β) (tell : Failure → Trouble)
    (x : ExceptT Failure Exchange α) : g <$> x.adapt tell = (g <$> x).adapt tell := by
  apply ExceptT.ext
  rw [ExceptT.run_map, ExceptT.run_adapt, ExceptT.run_adapt, ExceptT.run_map, ← comp_map,
    ← comp_map]
  refine congrArg (· <$> x.run) (funext fun r => ?_)
  cases r <;> rfl

/-- A submission with nothing to tell, waited for, prints nothing. -/
theorem map_finish (name : String) (task : ExceptT Failure Exchange Unit) :
    (fun _ => "") <$> finish ⟨name, task⟩ =
      (answerText <$> (fun _ => Answer.done) <$> task).adapt
        fun f => ⟨f, some s!"{name} failed"⟩ := by
  rw [finish, Submission.result_eq_task, map_adapt, ← comp_map]
  rfl

/-- A command prints what its operation answers, and fails as it fails, whether it
awaits the operation or submits it. -/
theorem text_perform (client : Client Exchange) (op : Operation) :
    (Command.perform op).text client =
      (answerText <$> client.perform op).adapt (troubleOf op) := by
  cases op
  case setInstanceCount | startVersion | stopVersion => exact map_finish ..
  all_goals exact map_adapt ..

theorem failed_eq (message : String) :
    failed message = { exit := 1, stdout := "", stderr := "Error: " ++ message ++ "\n" } := by
  simp [failed, toString]

/-- The lines of a failure below another one are indented. -/
theorem failedBecause_eq (name : String) (f : Failure) {cause : String}
    (h : cause.toList = f.text.toList.flatMap fun c => if c = '\n' then "\n    ".toList else [c]) :
    failedBecause s!"{name} failed" f.text =
      { exit := 1, stdout := "",
        stderr := "Error: " ++ name ++ " failed\n\nCaused by:\n    " ++ cause ++ "\n" } := by
  have hindented : String.join (f.text.toList.map fun c =>
      if c = '\n' then "\n    " else c.toString) = cause := by
    rw [← String.toList_inj, h, String.toList_join, List.flatMap_map]
    refine congrArg (f.text.toList.flatMap ·) (funext fun c => ?_)
    split <;> simp
  rw [failedBecause, hindented]
  simp [← String.toList_inj, toString]

/-- What the program comes to when its operation has come to a result. -/
def outputOf (op : Operation) (r : Except Failure Answer) : Output :=
  .ofResult ((r.map answerText).mapError (troubleOf op))

theorem outputOf_error (op : Operation) (f : Failure) : outputOf op (.error f) =
    if Changes op then failedBecause s!"{op.name} failed" f.text else failed f.text := by
  by_cases hchanges : Changes op <;>
    simp [outputOf, Except.map, Except.mapError, Output.ofResult, troubleOf, hchanges,
      Trouble.output]

theorem shown_output (op : Operation) {r : Except Failure Answer}
    (h : ∀ a, r = .ok a → Printed op a (answerText a).toList) (out : Output) :
    Shown op r out ↔ outputOf op r = out := by
  cases r with
  | ok a =>
    have hprinted := h a rfl
    constructor
    · rintro ⟨hshown⟩
      rw [← hprinted.unique hshown, String.ofList_toList]
      rfl
    · rintro rfl
      have hshown := Shown.answer hprinted
      rwa [String.ofList_toList] at hshown
  | error f =>
    rw [outputOf_error]
    constructor
    · intro hshown
      cases hshown with
      | failure hchanges => rw [if_neg hchanges, failed_eq]
      | cause hchanges hcause => rw [if_pos hchanges, failedBecause_eq op.name f hcause]
    · rintro rfl
      by_cases hchanges : Changes op
      · rw [if_pos hchanges, failedBecause_eq op.name f (String.toList_ofList ..)]
        exact .cause hchanges (String.toList_ofList ..)
      · rw [if_neg hchanges, failed_eq]
        exact .failure hchanges

/-! ## Runs -/

section Run

variable {i : Invocation} {access : Access} {environment : List (String × String)}

/-- The identity is in three lines, with a dash for what is not known. -/
theorem identityText_eq (identity : Identity) : identityText identity =
    "module:   " ++ identity.module.getD "-" ++ "\nversion:  " ++ identity.version.getD "-" ++
      "\ninstance: " ++ identity.instanceId.getD "-" ++ "\n" := by
  simp [identityText, line, ← String.toList_inj]

theorem run_whoami (h : i.command = .whoami) (server : Server Request Reply) (fuel : Nat) :
    run server fuel [] (i.run access environment) = ⟨[], some
      { exit := 0, stdout := identityText (.ofLookup (environment.lookup ·)), stderr := "" }⟩ := by
  rw [Invocation.run, h, Command.text, ExceptT.run_pure, map_pure]
  cases fuel <;> rfl

/-- The program makes the requests of the operation, and comes to an output as the
operation comes to a result. -/
theorem run_perform {op : Operation} (h : i.command = .perform op)
    (server : Server Request Reply) (fuel : Nat) :
    let awaited := run server fuel []
      ((access.client (.ofLookup (environment.lookup ·))).perform op).run
    run server fuel [] (i.run access environment) =
      ⟨awaited.requests, awaited.outcome.map (outputOf op)⟩ := by
  rw [Invocation.run, h, text_perform, ExceptT.run_adapt, ExceptT.run_map, ← comp_map, ← comp_map,
    run_map]
  rfl

/-- An answer that an operation has come to within some requests. -/
theorem printed_of_run {c : Client Exchange} {op : Operation} {server : Server Request Reply}
    {fuel : Nat} {a : Answer} (h : (run server fuel [] (c.perform op).run).outcome = some (.ok a)) :
    Printed op a (answerText a).toList := by
  have hrun : run server fuel [] (c.perform op).run =
      ⟨(run server fuel [] (c.perform op).run).requests, some (.ok a)⟩ := by rw [← h]
  obtain ⟨received, rest, -, hdone, -⟩ := Dialogue.reaches_of_carryOn .start hrun
  exact printed_of_perform c op hdone

end Run

/-- **All of an answer or none of it.** An accepted command line asks for what its
words give. With `--admin` it has the admin backend or none. A program that fails has
printed nothing of an answer, and one that does not has printed all of it: the
output is that of the operation, with the same arguments, whatever is replied. -/
theorem all_or_nothing {words : List String} {i : Invocation} (h : Invocation.read words = .ok i)
    (file : Option Bytes) (environment : List (String × String)) :
    (∃ front name items, i.Says words front name items) ∧
    (∀ out, i.access file environment = .error out → out.exit ≠ 0 ∧ out.stdout = "") ∧
    ∀ access, i.access file environment = .ok access →
      (i.admin = true → ∃ project endpoint, access = .admin project endpoint) ∧
      ∀ (server : Server Request Reply) (fuel : Nat),
        let identity := Identity.ofLookup (environment.lookup ·)
        let printed := run server fuel [] (i.run access environment)
        (∀ out ∈ printed.outcome, out.exit ≠ 0 → out.stdout = "") ∧
        (i.command = .whoami → printed = ⟨[], some
          { exit := 0
            stdout := "module:   " ++ identity.module.getD "-" ++ "\nversion:  " ++
              identity.version.getD "-" ++ "\ninstance: " ++ identity.instanceId.getD "-" ++ "\n"
            stderr := "" }⟩) ∧
        ∀ op, i.command = .perform op →
          let awaited := run server fuel [] ((access.client identity).perform op).run
          printed.requests = awaited.requests ∧
            ∀ out, printed.outcome = some out ↔ ∃ r, awaited.outcome = some r ∧ Shown op r out := by
  refine ⟨Invocation.says_of_read h, fun out => Invocation.access_eq_error, fun access haccess =>
    ⟨fun hadmin => Invocation.admin_of_access hadmin haccess, fun server fuel => ?_⟩⟩
  intro identity printed
  have hperform (op : Operation) (hop : i.command = .perform op) (out : Output) :
      printed.outcome = some out ↔
        ∃ r, (run server fuel [] ((access.client identity).perform op).run).outcome = some r ∧
          Shown op r out := by
    simp only [printed, run_perform hop, Option.map_eq_some_iff]
    refine exists_congr fun r => and_congr_right fun hr => ?_
    exact (shown_output op (fun a ha => printed_of_run (ha ▸ hr)) out).symm
  refine ⟨fun out hout hexit => ?_, fun hwhoami => ?_, fun op hop => ⟨?_, hperform op hop⟩⟩
  · cases hcommand : i.command with
    | whoami =>
      have hended : printed = _ := run_whoami hcommand server fuel
      rw [Option.mem_def, hended] at hout
      cases hout
      exact absurd rfl hexit
    | perform op =>
      obtain ⟨r, -, hshown⟩ := (hperform op hcommand out).1 hout
      cases hshown with
      | answer => exact absurd rfl hexit
      | failure | cause => rfl
  · rw [← identityText_eq]
    exact run_whoami hwhoami server fuel
  · exact congrArg Dialogue.Transcript.requests (run_perform hop server fuel)

/-- A version that is given and empty, of a module that is not given. -/
theorem all_or_nothing_instances :
    let words := ["--admin", "instances", "--version="]
    let environment := [("GAE_PROJECT", "demo"), ("MODULES__USE_ADMIN_API", "false")]
    let server : Server Request Reply := fun _ _ =>
      .ok (Utf8.encode "\x7b\"id\":\"v\",\"manualScaling\":\x7b\"instances\":3\x7d\x7d")
    let endpoint : Admin.Endpoint :=
      ⟨"https://appengine.googleapis.com/v1", 60000, "appengine-modules-api-rust-client", none⟩
    ∃ i, Invocation.read words = .ok i ∧ i.command = .perform (.instanceCount none (some "")) ∧
      i.access none environment = .ok (.admin "demo" endpoint) ∧
      (run server 1 [] (i.run (.admin "demo" endpoint) environment)).outcome =
        some { exit := 0, stdout := "3\n", stderr := "" } := by
  intro words environment server endpoint
  have hread : Invocation.read words =
      .ok ⟨none, true, 0, .perform (.instanceCount none (some ""))⟩ := by decide +kernel
  have haccess : Invocation.access ⟨none, true, 0, .perform (.instanceCount none (some ""))⟩ none
      environment = .ok (.admin "demo" endpoint) := by decide +kernel
  have hawaited : (run server 1 [] (((Access.admin "demo" endpoint).client
      (.ofLookup (environment.lookup ·))).perform (.instanceCount none (some ""))).run).outcome =
        some (.ok (.count 3)) := by decide +kernel
  obtain ⟨-, -, hruns⟩ := all_or_nothing hread none environment
  obtain ⟨-, hserver⟩ := hruns _ haccess
  obtain ⟨-, -, hperform⟩ := hserver server 1
  obtain ⟨-, hshown⟩ := hperform _ rfl
  exact ⟨_, hread, rfl, haccess,
    (hshown _).2 ⟨_, hawaited, .answer (.instanceCount (.digit (by decide)))⟩⟩

end ControlPlane.CommandLine
