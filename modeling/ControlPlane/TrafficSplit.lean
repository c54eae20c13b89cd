/-
How a module's traffic is shared among its versions, and the version that is
its default. A share is any finite double not below zero; shares need not add
up to one. The default is the version with a share of exactly one, else the
one with the greatest share in the total order on doubles, of several the one
whose name comes first.
-/
import ControlPlane.Double
import ControlPlane.Failure
import ControlPlane.NameMap

namespace ControlPlane

open Text (Before)

/-- What can be kept as a share. -/
def Double.IsUsable (d : Double) : Prop := d.isFinite = true ∧ d.isBelowZero = false

instance (d : Double) : Decidable d.IsUsable := by
  unfold Double.IsUsable; infer_instance

structure TrafficSplit where
  shares : NameMap Double
  usable : ∀ e ∈ shares.toList, e.2.IsUsable

namespace TrafficSplit

def empty : TrafficSplit := ⟨.empty, by simp [NameMap.empty]⟩

/-- Gives `version` the share, in place of the one it had. A share that cannot
be kept is refused. -/
def insert? (split : TrafficSplit) (version : String) (share : Double) : Option TrafficSplit :=
  if h : share.IsUsable then
    some ⟨split.shares.insert version share, fun _ he => by
      rcases mem_put he with rfl | he
      · exact h
      · exact split.usable _ he⟩
  else none

/-- The split after an insert, refused or not. -/
def insert (split : TrafficSplit) (version : String) (share : Double) : TrafficSplit :=
  (split.insert? version share).getD split

/-- Inserts in order; refused shares are left out. -/
def ofList (entries : List (String × Double)) : TrafficSplit :=
  entries.foldl (fun split e => split.insert e.1 e.2) empty

/-- The usable shares of a map. -/
def ofMap (map : NameMap Double) : TrafficSplit := ofList map.toList

def toMap (split : TrafficSplit) : NameMap Double := split.shares

def get? (split : TrafficSplit) (version : String) : Option Double := split.shares.get? version

/-- The shares in name order. -/
def toList (split : TrafficSplit) : List (String × Double) := split.shares.toList

def size (split : TrafficSplit) : Nat := split.shares.size

def isEmpty (split : TrafficSplit) : Bool := split.toList.isEmpty

/-- A walk through the shares in name order: those ahead of it, and how many
they are. That is counted down, and says when the walk is over. -/
structure Cursor where
  ahead : List (String × Double)
  left : Nat

/-- A walk that has not begun. -/
def cursor (split : TrafficSplit) : Cursor := ⟨split.toList, split.size⟩

namespace Cursor

def next? : Cursor → Option ((String × Double) × Cursor)
  | ⟨e :: ahead, left + 1⟩ => some (e, ⟨ahead, left⟩)
  | _ => none

/-- At least and at most how many shares are to come. -/
def sizeHint (c : Cursor) : Nat × Option Nat := (c.left, some c.left)

end Cursor

/-- The better of two entries: the greater share, of equal ones the first name. -/
def better (best next : String × Double) : String × Double :=
  if best.2.rank < next.2.rank then next
  else if next.2.rank = best.2.rank ∧ Before next.1 best.1 then next
  else best

/-- The default of the remaining entries, when `best` is the best before them. -/
def defaultFrom (best : Option (String × Double)) : List (String × Double) → Option String
  | [] => best.map (·.1)
  | e :: rest =>
    if e.2.rank = Double.one.rank then some e.1
    else defaultFrom (some (best.elim e (better · e))) rest

/-- The version that receives the module's traffic, if any does. -/
def default? (split : TrafficSplit) : Option String := defaultFrom none split.toList

/-- The default version of `module`, which has this split. -/
def resolveDefault (module : String) (split : TrafficSplit) : Except Failure String :=
  match split.default? with
  | some version => .ok version
  | none => .error (.noTraffic module)

end TrafficSplit
end ControlPlane
