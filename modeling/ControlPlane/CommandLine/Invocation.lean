/-
What a command line asks for: one command with its arguments, and what holds
for all commands. An argument may be empty, which is not the same as absent,
and none may be given twice.
-/
import ControlPlane.Client
import ControlPlane.CommandLine.Words
import ControlPlane.Text.Decimal

namespace ControlPlane.CommandLine

inductive Command
  /-- Tells which module, version and instance the program runs as. -/
  | whoami
  | perform (operation : Operation)
  deriving DecidableEq, Repr

structure Invocation where
  /-- The file with settings. -/
  config : Option String
  /-- Whether the admin backend is used whatever the settings say. -/
  admin : Bool
  verbosity : Nat
  command : Command
  deriving DecidableEq, Repr

/-! ## Options in front of the command -/

structure Common where
  config : Option String := none
  admin : Bool := false
  verbosity : Nat := 0

/-- Sets what is not set yet. -/
def setOnce (old : Option α) (new : α) : Except Halt (Option α) :=
  if old.isNone then .ok (some new) else .error .refused

/-- The name of a file may not be empty. -/
def Common.setConfig (path : String) (c : Common) : Except Halt Common := do
  if path = "" then .error .refused
  else return { c with config := ← setOnce c.config path }

def Common.setAdmin (c : Common) : Except Halt Common :=
  if c.admin then .error .refused else .ok { c with admin := true }

def Common.raiseVerbosity (c : Common) : Except Halt Common :=
  .ok { c with verbosity := c.verbosity + 1 }

def helpOption : OptionSpec σ := ⟨some 'h', "help", .flag fun _ => .error .help⟩

def versionOption : OptionSpec σ := ⟨some 'V', "version", .flag fun _ => .error .version⟩

/-! ## Commands and their arguments -/

structure Arguments where
  module : Option String := none
  version : Option String := none
  index : Option String := none
  count : Option UInt32 := none

namespace Arguments

def moduleOption : OptionSpec Arguments :=
  ⟨some 'm', "module", .value fun v a => do return { a with module := ← setOnce a.module v }⟩

def targetVersionOption : OptionSpec Arguments :=
  ⟨none, "version", .value fun v a => do return { a with version := ← setOnce a.version v }⟩

def indexOption : OptionSpec Arguments :=
  ⟨some 'i', "instance", .value fun v a => do return { a with index := ← setOnce a.index v }⟩

/-- Takes a count: a whole number of 64 bits that is one of 32 bits. -/
def setCount (operand : String) (a : Arguments) : Except Halt Arguments :=
  match Decimal.signed64? operand.toList with
  | some n =>
    if 0 ≤ n ∧ n < UInt32.size then do
      return { a with count := ← setOnce a.count (UInt32.ofNat n.toNat) }
    else .error .refused
  | none => .error .refused

end Arguments

/-- How a command is written, and what it then is. -/
structure CommandSpec where
  name : String
  grammar : Grammar Arguments
  make : Arguments → Except Halt Command

namespace CommandSpec

/-- A command with these options. -/
def plain (name : String) (options : List (OptionSpec Arguments)) (make : Arguments → Command) :
    CommandSpec :=
  ⟨name, { options := helpOption :: options }, fun a => .ok (make a)⟩

/-- The options that name a version of a module. -/
def target : List (OptionSpec Arguments) := [Arguments.moduleOption, Arguments.targetVersionOption]

/-- The one command with an operand, which may not be left out. -/
def setInstances : CommandSpec where
  name := "set-instances"
  grammar := { options := helpOption :: target, operand := Arguments.setCount }
  make a :=
    match a.count with
    | some count => .ok (.perform (.setInstanceCount count a.module a.version))
    | none => .error .refused

end CommandSpec

open CommandSpec in
def commands : List CommandSpec :=
  [plain "modules" [] fun _ => .perform .listModules,
   plain "versions" [Arguments.moduleOption] fun a => .perform (.listVersions a.module),
   plain "default-version" [Arguments.moduleOption] fun a => .perform (.defaultVersion a.module),
   plain "instances" target fun a => .perform (.instanceCount a.module a.version),
   setInstances,
   plain "start" target fun a => .perform (.startVersion a.module a.version),
   plain "stop" target fun a => .perform (.stopVersion a.module a.version),
   plain "hostname" (target ++ [Arguments.indexOption]) fun a =>
     .perform (.hostname a.module a.version a.index),
   plain "whoami" [] fun _ => .whoami]

/-! ## The whole -/

/-- The command that asks for help. -/
def helpCommand : String := "help"

def commandNames : List String := commands.map (·.name) ++ [helpCommand]

def commonGrammar : Grammar Common where
  options :=
    [helpOption, versionOption,
     ⟨some 'c', "config", .value Common.setConfig⟩,
     ⟨none, "admin", .flag Common.setAdmin⟩,
     ⟨some 'v', "verbose", .flag Common.raiseVerbosity⟩]
  commands := commandNames

/-- Reads a command's own words. -/
def readCommand (name : String) (words : List String) : Except Halt Command :=
  match commands.find? (·.name = name) with
  | some spec => do
    let (arguments, _) ← spec.grammar.read words {}
    spec.make arguments
  | none => .error .refused

/-- Help is for all commands or for one. -/
def readHelp : List String → Halt
  | [] => .help
  | [name] => if name ∈ commandNames then .help else .refused
  | _ => .refused

def Invocation.read (words : List String) : Except Halt Invocation := do
  match ← commonGrammar.read words {} with
  | (_, none) => .error .refused
  | (common, some (name, rest)) =>
    if name = helpCommand then .error (readHelp rest)
    else return ⟨common.config, common.admin, common.verbosity, ← readCommand name rest⟩

end ControlPlane.CommandLine
