/-
Settings in a file. The file holds one YAML document, whose root is a table or
is left out. Any scalar names an entry, by its text; what is no table of such
entries, or is no document at all, is malformed.
-/
import ControlPlane.Settings.Tree
import ControlPlane.Yaml.Layout
import ControlPlane.Yaml.Value

namespace ControlPlane.Settings

open Yaml (Node)

def Tree.ofValue : Yaml.Value → Tree
  | .null => absent
  | .bool b => bool b
  | .int n => int n
  | .real => real
  | .text s => text s

/-- How deep collections may nest. -/
def nestingLimit : Nat := 128

mutual

/-- What a node says, with at most `room` collections around its innermost. -/
def ofNode? (room : Nat) : Node → Option Tree
  | .scalar s plain tag => (Yaml.Value.ofScalar? s plain tag).map Tree.ofValue
  | .sequence items tag =>
    if 0 < room && Yaml.isKnownCollectionTag tag then (ofItems? (room - 1) items).map .list
    else none
  | .mapping entries tag =>
    if 0 < room && Yaml.isKnownCollectionTag tag then
      (ofEntries? (room - 1) entries).map Tree.ofEntries
    else none

def ofItems? (room : Nat) : List Node → Option (List Tree)
  | [] => some []
  | item :: rest =>
    match ofNode? room item, ofItems? room rest with
    | some tree, some trees => some (tree :: trees)
    | _, _ => none

def ofEntries? (room : Nat) : List (Node × Node) → Option (List (String × Tree))
  | [] => some []
  | (.scalar name _ _, value) :: rest =>
    match ofNode? room value, ofEntries? room rest with
    | some tree, some entries => some ((name, tree) :: entries)
    | _, _ => none
  | _ :: _ => none

end

/-- What a document says. Its own tag does not count. -/
def ofRoot? : Node → Option Tree
  | .mapping entries _ => (ofEntries? (nestingLimit - 1) entries).map Tree.ofEntries
  | .scalar "" _ _ => some .nothing
  | _ => none

/-- What a text says. -/
def ofText? (text : String) : Option Tree :=
  ((Yaml.tokens? text).bind Node.ofTokens?).bind ofRoot?

/-- What the bytes of a file say. -/
def ofFile? (bytes : Bytes) : Option Tree := (Utf8.decode bytes).bind ofText?

end ControlPlane.Settings
