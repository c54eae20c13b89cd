/-
Sources of settings one upon the other. A place in a tree is told by the steps
that lead to it, and what two merged trees say there is told by what each says:
the newer one keeps all it has (`at?_merge_new`), and the older one what the
newer does not put something else in the place of (`at?_merge_old`). Where both
have tables all the way, as sources of settings have above a single setting, the
merged tree has at a place just what they have there (`at?_merge`).
-/
import Mathlib.Data.List.Induction
import ControlPlane.Proofs.Construction
import ControlPlane.Settings.Tree

namespace ControlPlane.Settings

/-- A step down from a value: to the entry of a name, or to an item. -/
inductive Step
  | name (name : String)
  | item (index : Nat)
  deriving DecidableEq, Repr

abbrev Place := List Step

/-- The place at the end of a path of names. -/
def placeOf (path : List String) : Place := path.map .name

namespace Tree

def down? : Tree → Step → Option Tree
  | table entries, .name name => find? name entries
  | list items, .item index => items[index]?
  | _, _ => none

/-- The value at a place. -/
def at? : Tree → Place → Option Tree
  | t, [] => some t
  | t, step :: place => (t.down? step).bind (·.at? place)

theorem at?_cons (t : Tree) (step : Step) (place : Place) :
    t.at? (step :: place) = (t.down? step).bind (·.at? place) := rfl

def IsTable (t : Tree) : Prop := ∃ entries, t = table entries

/-! ## Names in order -/

/-- Each table in the tree has its names in order, so each of them once. -/
inductive Ordered : Tree → Prop
  | table {entries : List (String × Tree)} : Ascending entries →
      (∀ name t, find? name entries = some t → Ordered t) → Ordered (.table entries)
  | list {items : List Tree} : (∀ t ∈ items, Ordered t) → Ordered (.list items)
  | absent : Ordered .absent
  | bool (b : Bool) : Ordered (.bool b)
  | int (n : Int) : Ordered (.int n)
  | real : Ordered .real
  | text (s : String) : Ordered (.text s)

theorem Ordered.ascending {entries : List (String × Tree)} (h : (Tree.table entries).Ordered) :
    Ascending entries := by
  cases h with
  | table h => exact h

theorem Ordered.of_down? {t t' : Tree} (h : t.Ordered) {step : Step}
    (hdown : t.down? step = some t') : t'.Ordered := by
  cases h with
  | table _ hentries =>
    cases step with
    | name name => exact hentries name t' hdown
    | item => cases hdown
  | list hitems =>
    cases step with
    | name => cases hdown
    | item => exact hitems t' (List.mem_of_getElem? hdown)
  | _ => cases hdown

theorem Ordered.of_find? {entries : List (String × Tree)} (h : (Tree.table entries).Ordered)
    {name : String} {t : Tree} (hfind : find? name entries = some t) : t.Ordered :=
  @Ordered.of_down? _ _ h (.name name) hfind

/-- What is found after an entry has been put in. -/
theorem find?_put (name : String) (t : Tree) (entries : List (String × Tree)) (other : String) :
    find? other (put name t entries) = if other = name then some t else find? other entries := by
  split
  · next h => rw [h, find?_put_self]
  · next h => exact find?_put_other h t entries

theorem Ordered.put {name : String} {t : Tree} {entries : List (String × Tree)}
    (h : (Tree.table entries).Ordered) (ht : t.Ordered) :
    (Tree.table (put name t entries)).Ordered := by
  refine .table h.ascending.put fun other t' hfind => ?_
  rw [find?_put] at hfind
  split at hfind
  · cases hfind
    exact ht
  · exact h.of_find? hfind

theorem ordered_nothing : nothing.Ordered := .table .nil nofun

theorem ordered_nest {t : Tree} (h : t.Ordered) (path : List String) : (nest path t).Ordered := by
  induction path with
  | nil => exact h
  | cons name path ih => exact @Ordered.put name _ [] ordered_nothing ih

theorem ordered_ofEntries {entries : List (String × Tree)} (h : ∀ e ∈ entries, e.2.Ordered) :
    (ofEntries entries).Ordered := by
  refine List.foldlRecOn entries (motive := fun before => (Tree.table before).Ordered)
    (fun before e => ControlPlane.put e.1 e.2 before) ordered_nothing ?_
  intro before hbefore e he
  exact hbefore.put (h e he)

/-! ## Two sources -/

/-- What is no table takes the place of anything, and anything that of it. -/
theorem merge_of_not_table {old new : Tree} (h : ¬ (old.IsTable ∧ new.IsTable)) :
    merge old new = new := by
  cases new with
  | table entries =>
    cases old with
    | table before => exact absurd ⟨⟨before, rfl⟩, entries, rfl⟩ h
    | _ => rfl
  | _ => rfl

theorem merge_isTable {old new : Tree} : (merge old new).IsTable ↔ new.IsTable := by
  cases new with
  | table entries => cases old <;> exact ⟨fun _ => ⟨_, rfl⟩, fun _ => ⟨_, rfl⟩⟩
  | _ => exact .rfl

/-- Merged tables have what either has, and of a name that both have the two
merged. -/
theorem find?_mergeEntries {entries : List (String × Tree)} (h : Ascending entries)
    (before : List (String × Tree)) (name : String) : find? name (mergeEntries before entries) =
      Option.merge merge (find? name before) (find? name entries) := by
  induction entries generalizing before with
  | nil =>
    rw [mergeEntries]
    cases find? name before <;> rfl
  | cons entry entries ih =>
    obtain ⟨head, new⟩ := entry
    obtain ⟨hhead, hentries⟩ := List.pairwise_cons.1 h
    have hstep : mergeEntries before ((head, new) :: entries) = mergeEntries
        (ControlPlane.put head (((find? head before).map (merge · new)).getD new) before)
        entries := by
      rw [mergeEntries]
      cases find? head before <;> rfl
    have hlater : find? head entries = none := Option.eq_none_iff_forall_ne_some.2 fun t hfind =>
      Text.Before.irrefl head (hhead (head, t) ((find?_eq_some_iff hentries).1 hfind))
    rw [hstep, ih hentries, find?_put, find?]
    by_cases hname : name = head
    · subst hname
      rw [if_pos rfl, if_pos rfl, hlater]
      cases find? name before <;> rfl
    · rw [if_neg hname, if_neg (Ne.symm hname)]

/-- One step down two merged tables. -/
theorem down?_merge {old new : Tree} (hnew : new.Ordered) (h : old.IsTable) (h' : new.IsTable)
    (step : Step) : (merge old new).down? step =
      Option.merge merge (old.down? step) (new.down? step) := by
  obtain ⟨before, rfl⟩ := h
  obtain ⟨entries, rfl⟩ := h'
  cases step with
  | name name => exact find?_mergeEntries hnew.ascending before name
  | item => rfl

theorem Ordered.mergeEntries {entries : List (String × Tree)}
    (ih : ∀ e ∈ entries, ∀ old : Tree, old.Ordered → (merge old e.2).Ordered)
    (hentries : ∀ e ∈ entries, e.2.Ordered) {before : List (String × Tree)}
    (hbefore : (Tree.table before).Ordered) :
    (Tree.table (mergeEntries before entries)).Ordered := by
  induction entries generalizing before with
  | nil =>
    rw [Tree.mergeEntries]
    exact hbefore
  | cons entry entries hrest =>
    obtain ⟨name, new⟩ := entry
    rw [Tree.mergeEntries]
    obtain ⟨ihhead, ihrest⟩ := List.forall_mem_cons.1 ih
    obtain ⟨hnew, hentries⟩ := List.forall_mem_cons.1 hentries
    refine hrest ihrest hentries (hbefore.put ?_)
    split
    · next old hfind => exact ihhead old (hbefore.of_find? hfind)
    · exact hnew

theorem Ordered.merge {new : Tree} (hnew : new.Ordered) {old : Tree} (hold : old.Ordered) :
    (merge old new).Ordered := by
  induction hnew generalizing old with
  | @table entries hascending hentries ih =>
    have hmem : ∀ e ∈ entries, find? e.1 entries = some e.2 := fun e he =>
      (find?_eq_some_iff hascending).2 he
    cases old with
    | table before =>
      exact Ordered.mergeEntries (fun e he old hold => ih e.1 e.2 (hmem e he) hold)
        (fun e he => hentries e.1 e.2 (hmem e he)) hold
    | _ => exact .table hascending hentries
  | list hitems => exact .list hitems
  | absent => exact .absent
  | bool b => exact .bool b
  | int n => exact .int n
  | real => exact .real
  | text s => exact .text s

/-! ## Places in merged trees -/

/-- Wherever the newer source has a value, the merged tree has one. -/
theorem at?_merge_new {new : Tree} (hnew : new.Ordered) (old : Tree) {place : Place}
    (h : (new.at? place).isSome) : ((merge old new).at? place).isSome := by
  induction place generalizing old new with
  | nil => rfl
  | cons step place ih =>
    by_cases htables : old.IsTable ∧ new.IsTable
    · rw [at?_cons] at h
      rw [at?_cons, down?_merge hnew htables.1 htables.2]
      cases hdown : new.down? step with
      | none =>
        rw [hdown] at h
        cases h
      | some t =>
        rw [hdown] at h
        cases old.down? step with
        | none => exact h
        | some t' => exact ih (hnew.of_down? hdown) t' h
    · rwa [merge_of_not_table htables]

/-- A source puts something in the place of what another has at a place, or of
what that is within: it has a value above that place and does not go on to it as
a table does. Only tables are merged. -/
def Covers : Tree → Place → Prop
  | _, [] => False
  | table entries, .name name :: place => ∃ t, find? name entries = some t ∧ t.Covers place
  | _, _ :: _ => True

instance decidableCovers : (t : Tree) → (place : Place) → Decidable (t.Covers place)
  | _, [] => .isFalse id
  | table entries, .name name :: place =>
    match h : find? name entries with
    | none => .isFalse fun ⟨t, ht, _⟩ => nomatch ht.symm.trans h
    | some t =>
      have := decidableCovers t place
      decidable_of_iff (t.Covers place) <| by
        constructor
        · exact fun hcovers => ⟨t, h, hcovers⟩
        · rintro ⟨t', ht', hcovers⟩
          cases ht'.symm.trans h
          exact hcovers
  | table _, .item _ :: _ | absent, _ :: _ | bool _, _ :: _ | int _, _ :: _ | real, _ :: _
  | text _, _ :: _ | list _, _ :: _ => .isTrue (by simp [Covers])

/-- What the older source says is kept, unless the newer covers it. -/
theorem at?_merge_old {old new : Tree} (hnew : new.Ordered) {place : Place}
    (hcovers : ¬ new.Covers place) (h : (old.at? place).isSome) :
    ((merge old new).at? place).isSome := by
  induction place generalizing old new with
  | nil => rfl
  | cons step place ih =>
    -- Anything but a table with a name to look for covers the place.
    obtain ⟨entries, name, rfl, rfl⟩ : ∃ entries name, new = table entries ∧ step = .name name := by
      cases new with
      | table entries =>
        cases step with
        | name name => exact ⟨entries, name, rfl, rfl⟩
        | item => simp [Covers] at hcovers
      | _ => simp [Covers] at hcovers
    obtain ⟨before, rfl⟩ : old.IsTable := by
      cases old with
      | table before => exact ⟨before, rfl⟩
      | _ => cases h
    rw [at?_cons] at h ⊢
    rw [down?_merge hnew ⟨before, rfl⟩ ⟨entries, rfl⟩]
    cases hold : (table before).down? (.name name) with
    | none =>
      rw [hold] at h
      cases h
    | some t =>
      rw [hold] at h
      cases hdown : (table entries).down? (.name name) with
      | none => exact h
      | some t' =>
        exact ih (hnew.of_down? hdown) (fun hcovered => hcovers ⟨t', hdown, hcovered⟩) h

/-- Nothing stands in the way to a place: above it there are just tables. -/
def Open : Tree → Place → Prop
  | _, [] => True
  | t, step :: place => t.IsTable ∧ ∀ t', t.down? step = some t' → t'.Open place

/-- Where nothing stands in the way, two sources have at a place just what they
both say there. -/
theorem at?_merge {old new : Tree} (hnew : new.Ordered) {place : Place} (hold : old.Open place)
    (hopen : new.Open place) :
    (merge old new).at? place = Option.merge merge (old.at? place) (new.at? place) := by
  induction place generalizing old new with
  | nil => rfl
  | cons step place ih =>
    rw [at?_cons, at?_cons, at?_cons, down?_merge hnew hold.1 hopen.1]
    cases hdown : old.down? step with
    | none => cases new.down? step <;> simp
    | some t =>
      cases hdown' : new.down? step with
      | none => simp
      | some t' => exact ih (hnew.of_down? hdown') (hold.2 t hdown) (hopen.2 t' hdown')

theorem Open.merge {old new : Tree} (hnew : new.Ordered) {place : Place} (hold : old.Open place)
    (hopen : new.Open place) : (merge old new).Open place := by
  induction place generalizing old new with
  | nil => trivial
  | cons step place ih =>
    refine ⟨merge_isTable.2 hopen.1, fun t hdown => ?_⟩
    rw [down?_merge hnew hold.1 hopen.1] at hdown
    cases hold' : old.down? step with
    | none =>
      rw [hold', Option.merge_none_left] at hdown
      exact hopen.2 t hdown
    | some t' =>
      cases hnew' : new.down? step with
      | none =>
        rw [hold', hnew', Option.merge_none_right] at hdown
        exact hold.2 t (hold'.trans hdown)
      | some t'' =>
        rw [hold', hnew'] at hdown
        cases hdown
        exact ih (hnew.of_down? hnew') (hold.2 t' hold') (hopen.2 t'' hnew')

end Tree
end ControlPlane.Settings
