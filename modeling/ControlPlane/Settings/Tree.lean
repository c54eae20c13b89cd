/-
What a source of settings says, before any of it is checked: a tree of values
under names. Of two sources the later counts wherever both say something, and
they are merged name by name, so that one setting of a section can be changed
without losing the others.
-/
import ControlPlane.NameMap

namespace ControlPlane.Settings

/-- A value. No setting is a number with a fraction, so only its kind is kept.
The names of a table ascend. -/
inductive Tree
  | absent
  | bool (b : Bool)
  | int (n : Int)
  | real
  | text (s : String)
  | list (items : List Tree)
  | table (entries : List (String × Tree))

namespace Tree

/-- A source that says nothing. -/
def nothing : Tree := table []

/-- A table of these entries, of which the last of a name counts. -/
def ofEntries (entries : List (String × Tree)) : Tree :=
  table (entries.foldl (fun t e => put e.1 e.2 t) [])

/-- A value at the end of a path. -/
def nest : List String → Tree → Tree
  | [], value => value
  | name :: path, value => table [(name, nest path value)]

mutual

/-- What `old` and then `new` say. -/
def merge (old : Tree) : Tree → Tree
  | table entries =>
    match old with
    | table before => table (mergeEntries before entries)
    | _ => table entries
  | absent => absent
  | bool b => bool b
  | int n => int n
  | real => real
  | text s => text s
  | list items => list items

def mergeEntries (before : List (String × Tree)) : List (String × Tree) → List (String × Tree)
  | [] => before
  | (name, value) :: rest =>
    let value := match find? name before with
      | some old => merge old value
      | none => value
    mergeEntries (put name value before) rest

end

end Tree
end ControlPlane.Settings
