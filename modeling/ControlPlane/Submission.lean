/-
Operations submitted to the background. A submission is a task and the name of
the operation that the task runs; whoever submitted it holds a pending call,
which is known by that name. A task has arguments of its own, the ones that
were given.
-/
import ControlPlane.Client
import ControlPlane.Pending

namespace ControlPlane

/-- An operation that runs on a task of its own. -/
structure Submission (m : Type → Type) (α : Type) where
  operation : String
  task : ExceptT Failure m α

namespace Submission

variable {m : Type → Type} {α β : Type}

/-- What the holder has of the submission. -/
def call (s : Submission m α) : PendingCall α := .submit s.operation

/-- The task carried to its end, with what its holder is told of that. -/
def result [Monad m] (s : Submission m α) : ExceptT Failure m α :=
  ExceptT.mk ((fun ended => (TaskOutcome.returned ended).result s.call.operation) <$> s.task.run)

theorem result_eq_task [Monad m] [LawfulMonad m] (s : Submission m α) : s.result = s.task :=
  id_map s.task.run

/-- The submission with its result told in another way. -/
def map [Monad m] (f : α → β) (s : Submission m α) : Submission m β := ⟨s.operation, f <$> s.task⟩

end Submission

namespace Client

variable {m : Type → Type} [Monad m]

def submitListModules (c : Client m) : Submission m (List String) :=
  ⟨"list_modules", c.listModules⟩

def submitListVersions (c : Client m) (module : Option String) : Submission m (List String) :=
  ⟨"list_versions", c.listVersions module⟩

def submitDefaultVersion (c : Client m) (module : Option String) : Submission m String :=
  ⟨"get_default_version", c.defaultVersion module⟩

def submitInstanceCount (c : Client m) (module version : Option String) : Submission m UInt32 :=
  ⟨"get_instance_count", c.instanceCount module version⟩

def submitSetInstanceCount (c : Client m) (count : UInt32) (module version : Option String) :
    Submission m Unit :=
  ⟨"set_instance_count", c.setInstanceCount count module version⟩

def submitStartVersion (c : Client m) (module version : Option String) : Submission m Unit :=
  ⟨"start_version", c.startVersion module version⟩

def submitStopVersion (c : Client m) (module version : Option String) : Submission m Unit :=
  ⟨"stop_version", c.stopVersion module version⟩

def submitHostname (c : Client m) (module version index : Option String) : Submission m String :=
  ⟨"get_hostname", c.hostname module version index⟩

/-- Submits an operation. -/
def submit (c : Client m) : Operation → Submission m Answer
  | .listModules => c.submitListModules.map .names
  | .listVersions module => (c.submitListVersions module).map .names
  | .defaultVersion module => (c.submitDefaultVersion module).map .text
  | .instanceCount module version => (c.submitInstanceCount module version).map .count
  | .setInstanceCount count module version =>
    (c.submitSetInstanceCount count module version).map fun _ => .done
  | .startVersion module version => (c.submitStartVersion module version).map fun _ => .done
  | .stopVersion module version => (c.submitStopVersion module version).map fun _ => .done
  | .hostname module version index => (c.submitHostname module version index).map .text

end Client
end ControlPlane
