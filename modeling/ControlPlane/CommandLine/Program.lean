/-
The program: a command line, settings and an environment in, an exit code and
two texts out. What a command prints is made before any of it is printed, so a
command that fails has printed nothing.
-/
import ControlPlane.Access
import ControlPlane.CommandLine.Invocation
import ControlPlane.Settings.Source
import ControlPlane.Submission

namespace ControlPlane.CommandLine

structure Output where
  exit : Nat
  stdout : String := ""
  stderr : String := ""
  deriving DecidableEq, Repr

/-! ## Before a command is known -/

def versionText : String := "modules-ctl 0.1.0\n"

def usageText : String :=
  "Usage: modules-ctl [-c <file>] [--admin] [-v...] <command>\n\nCommands:\n"
    ++ String.join (commandNames.map fun name => "  " ++ name ++ "\n")

def Halt.output : Halt → Output
  | help => { exit := 0, stdout := usageText }
  | version => { exit := 0, stdout := versionText }
  | refused => { exit := 2, stderr := "error: not a command line\n\n" ++ usageText }

/-! ## Before a command is run -/

def problemText : Settings.Problem → String
  | .wrongType => "wrong type"
  | .wrongValue => "wrong value"
  | .unknownName name => s!"unknown setting '{name}'"

def loadErrorText : Settings.LoadError → String
  | .malformed => "malformed file"
  | .rejected path problem => ".".intercalate path ++ ": " ++ problemText problem

/-- A failure with nothing behind it. -/
def failed (message : String) : Output := { exit := 1, stderr := s!"Error: {message}\n" }

/-- A failure with its cause, whose lines are all indented. -/
def failedBecause (message cause : String) : Output :=
  let indented := String.join (cause.toList.map fun c => if c = '\n' then "\n    " else c.toString)
  { exit := 1, stderr := s!"Error: {message}\n\nCaused by:\n    {indented}\n" }

/-- Settings as an invocation has them. -/
def Invocation.settings (i : Invocation) (file : Option Bytes)
    (environment : List (String × String)) : Except Settings.LoadError Settings :=
  (Settings.load file environment).map fun s =>
    if i.admin then { s with useAdminApi := true } else s

/-- The access that an invocation works with, or what is printed instead. -/
def Invocation.access (i : Invocation) (file : Option Bytes)
    (environment : List (String × String)) : Except Output Access :=
  match i.settings file environment with
  | .error e => .error (failed ("failed to load modules configuration: " ++ loadErrorText e))
  | .ok settings => (Access.ofSettings settings (environment.lookup ·)).mapError (failed ·.text)

/-! ## Commands -/

def line (s : String) : String := s ++ "\n"

def answerText : Answer → String
  | .names names => String.join (names.map line)
  | .text s => line s
  | .count n => line (Decimal.text n.toNat)
  | .done => ""

def identityText (i : Identity) : String :=
  line ("module:   " ++ i.module.getD "-") ++ line ("version:  " ++ i.version.getD "-")
    ++ line ("instance: " ++ i.instanceId.getD "-")

/-- Why a command fails: with a failure, which may be the cause of something that
is said of the command itself. -/
structure Trouble where
  failure : Failure
  context : Option String := none

def Trouble.output : Trouble → Output
  | ⟨failure, none⟩ => failed failure.text
  | ⟨failure, some context⟩ => failedBecause context failure.text

/-- Awaits an operation, whose failure is that of the command. -/
def await (x : ExceptT Failure Exchange α) : ExceptT Trouble Exchange α :=
  x.adapt fun failure => ⟨failure, none⟩

/-- Waits for a submission, and says which operation failed if it did. -/
def finish (s : Submission Exchange α) : ExceptT Trouble Exchange α :=
  s.result.adapt fun failure => ⟨failure, some s!"{s.call.operation} failed"⟩

/-- What a command prints. Commands that change something submit it and have
nothing to tell; the others await an answer. -/
def Command.text (client : Client Exchange) : Command → ExceptT Trouble Exchange String
  | whoami => pure (identityText client.identity)
  | perform (.setInstanceCount count module version) =>
    (fun _ => "") <$> finish (client.submitSetInstanceCount count module version)
  | perform (.startVersion module version) =>
    (fun _ => "") <$> finish (client.submitStartVersion module version)
  | perform (.stopVersion module version) =>
    (fun _ => "") <$> finish (client.submitStopVersion module version)
  | perform operation => answerText <$> await (client.perform operation)

/-- What the end of a command comes to. -/
def Output.ofResult : Except Trouble String → Output
  | .ok text => { exit := 0, stdout := text }
  | .error trouble => trouble.output

/-- Runs the command of an invocation over an access. -/
def Invocation.run (i : Invocation) (access : Access) (environment : List (String × String)) :
    Exchange Output :=
  Output.ofResult <$> (i.command.text (access.client (.ofLookup (environment.lookup ·)))).run

end ControlPlane.CommandLine
