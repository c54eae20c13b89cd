/-
Maps from names to values that list their entries in name order. The entries
are a list, each name in it once; `put` and `find?` work on such a list, and
`NameMap` keeps it ascending.
-/
import ControlPlane.Text.Order

namespace ControlPlane

open Text (Before)

/-- The value of the first entry with this name. -/
def find? (name : String) : List (String × α) → Option α
  | [] => none
  | (n, v) :: rest => if n = name then some v else find? name rest

/-- `value` under `name`, in place of what that name had or else in front of
the first name after it. -/
def put (name : String) (value : α) : List (String × α) → List (String × α)
  | [] => [(name, value)]
  | (n, v) :: rest =>
    if n = name then (name, value) :: rest
    else if Before name n then (name, value) :: (n, v) :: rest
    else (n, v) :: put name value rest

theorem mem_put {name : String} {value : α} {entries : List (String × α)} {e : String × α}
    (h : e ∈ put name value entries) : e = (name, value) ∨ e ∈ entries := by
  induction entries with
  | nil => simpa [put] using h
  | cons head rest ih =>
    obtain ⟨n, v⟩ := head
    simp only [put] at h
    split at h
    · rcases List.mem_cons.1 h with h | h
      · exact .inl h
      · exact .inr (List.mem_cons_of_mem _ h)
    · split at h
      · exact List.mem_cons.1 h
      · rcases List.mem_cons.1 h with h | h
        · exact .inr (h ▸ List.mem_cons_self)
        · exact (ih h).imp id (List.mem_cons_of_mem _)

/-- Names in strictly ascending order, so each of them once. -/
def Ascending (entries : List (String × α)) : Prop := entries.Pairwise fun a b => Before a.1 b.1

theorem Ascending.put {name : String} {value : α} {entries : List (String × α)}
    (h : Ascending entries) : Ascending (put name value entries) := by
  induction entries with
  | nil => exact List.pairwise_singleton _ _
  | cons head rest ih =>
    obtain ⟨n, v⟩ := head
    obtain ⟨first, later⟩ := List.pairwise_cons.1 h
    simp only [ControlPlane.put]
    split
    · subst n
      exact List.pairwise_cons.2 ⟨first, later⟩
    · rename_i differ
      split
      · rename_i before
        refine List.pairwise_cons.2 ⟨fun e he => ?_, h⟩
        rcases List.mem_cons.1 he with rfl | he
        · exact before
        · exact before.trans (first e he)
      · rename_i notBefore
        refine List.pairwise_cons.2 ⟨fun e he => ?_, ih later⟩
        rcases mem_put he with rfl | he
        · exact Decidable.byContradiction fun c => differ (Text.eq_of_not_before c notBefore)
        · exact first e he

theorem find?_put_self (name : String) (value : α) (entries : List (String × α)) :
    find? name (put name value entries) = some value := by
  induction entries with
  | nil => simp [put, find?]
  | cons head rest ih =>
    obtain ⟨n, v⟩ := head
    simp only [put]
    split
    · simp [find?]
    · rename_i differ
      split
      · simp [find?]
      · simpa [find?, differ] using ih

theorem find?_put_other {name other : String} (h : other ≠ name) (value : α)
    (entries : List (String × α)) : find? other (put name value entries) = find? other entries := by
  induction entries with
  | nil => simp [put, find?, h.symm]
  | cons head rest ih =>
    obtain ⟨n, v⟩ := head
    simp only [put]
    split
    · rename_i same
      simp [find?, same, h.symm]
    · split
      · simp [find?, h.symm]
      · simp only [find?, ih]

/-- A map from names to values. -/
structure NameMap (α : Type) where
  toList : List (String × α)
  ascending : Ascending toList

namespace NameMap

def empty : NameMap α := ⟨[], .nil⟩

def insert (m : NameMap α) (name : String) (value : α) : NameMap α :=
  ⟨put name value m.toList, m.ascending.put⟩

def get? (m : NameMap α) (name : String) : Option α := find? name m.toList

def size (m : NameMap α) : Nat := m.toList.length

/-- Later entries replace earlier ones of the same name. -/
def ofList (entries : List (String × α)) : NameMap α :=
  entries.foldl (fun m e => m.insert e.1 e.2) empty

theorem get?_insert_self (m : NameMap α) (name : String) (value : α) :
    (m.insert name value).get? name = some value := find?_put_self name value m.toList

theorem get?_insert_other (m : NameMap α) {name other : String} (h : other ≠ name) (value : α) :
    (m.insert name value).get? other = m.get? other := find?_put_other h value m.toList

end NameMap
end ControlPlane
