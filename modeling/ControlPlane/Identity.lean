/-
The module, version and instance a caller runs in, and the project it belongs
to, as its environment tells them. Each part has a newer variable and an older
one; the newer decides when it is set and not empty. Nothing is read from the
environment but through `lookup`, so an identity is a value like any other.
-/

namespace ControlPlane

/-- The module every application starts with. -/
def defaultModule : String := "default"

structure Identity where
  module : Option String := none
  version : Option String := none
  instanceId : Option String := none
  deriving DecidableEq, Repr

/-- A variable's value; one that is set to nothing counts as unset. -/
def nonEmpty? (lookup : String → Option String) (name : String) : Option String :=
  (lookup name).filter (· ≠ "")

/-- A full version is a name, a dot and a minor part; the name is the version.
A version that is not known is written `None`. -/
def majorVersion? (full : String) : Option String :=
  let major := String.ofList (full.toList.takeWhile (· ≠ '.'))
  if major ≠ "" ∧ major ≠ "None" then some major else none

namespace Identity

/-- An identity with nothing known. -/
def unknown : Identity := {}

def ofLookup (lookup : String → Option String) : Identity where
  module := nonEmpty? lookup "GAE_SERVICE" <|> nonEmpty? lookup "CURRENT_MODULE_ID"
  version := nonEmpty? lookup "GAE_VERSION"
    <|> (nonEmpty? lookup "CURRENT_VERSION_ID").bind majorVersion?
  instanceId := nonEmpty? lookup "GAE_INSTANCE" <|> nonEmpty? lookup "INSTANCE_ID"

def moduleOrDefault (i : Identity) : String := i.module.getD defaultModule

end Identity

/-- An application is named by its project, or by a partition, a tilde and its
project. -/
def projectOfApplication (application : String) : String :=
  match application.toList.dropWhile (· ≠ '~') with
  | _ :: project => String.ofList project
  | [] => application

/-- The project the environment names. -/
def projectOfLookup (lookup : String → Option String) : Option String :=
  nonEmpty? lookup "GAE_PROJECT"
    <|> nonEmpty? lookup "GOOGLE_CLOUD_PROJECT"
    <|> (nonEmpty? lookup "GAE_APPLICATION").map projectOfApplication

end ControlPlane
