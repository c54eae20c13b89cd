/-
Sections as they are taken. Each setting of a section minds its own value: one
that is named, or has an item in its position, becomes what is said of it, and
the others stay (`Setting.Minds.takeSection`). A list is taken as the table that
has its items under the names of the settings (`foldlM_takeItem`), so both are one
argument. And a section that is taken says nothing but where it has settings
(`located_of_takeSection`).
-/
import ControlPlane.Proofs.Fallible
import ControlPlane.Proofs.Layers
import ControlPlane.Settings.Load

namespace ControlPlane.Settings

open Fallible

variable {σ τ β : Type}

/-! ## Values -/

namespace Tree

/-- A text, or nothing, as a value. -/
def ofOptional : Option String → Tree
  | some s => text s
  | none => absent

/-- What is said of a setting: under its name, or in its position. -/
def under? (t : Tree) (name : String) (index : Nat) : Option Tree :=
  t.down? (.name name) <|> t.down? (.item index)

end Tree

theorem bool_eq_ok {t : Tree} {b : Bool} : bool t = .ok b ↔ t = .bool b := by
  cases t <;> simp [bool, wrongType]

theorem text_eq_ok {t : Tree} {s : String} : text t = .ok s ↔ t = .text s := by
  cases t <;> simp [text, wrongType]

theorem optionalText_eq_ok {t : Tree} {s : Option String} :
    optionalText t = .ok s ↔ t = .ofOptional s := by
  cases s <;> cases t <;>
    simp [optionalText, text, wrongType, Tree.ofOptional, Functor.map, Except.map]

theorem count_eq_ok {t : Tree} {n : Nat} : count t = .ok n ↔ t = .int n ∧ n < UInt64.size := by
  cases t with
  | int k =>
    simp only [count, Tree.int.injEq]
    split_ifs <;> simp [wrongType] <;> omega
  | _ => simp [count, wrongType]

theorem Setting.of_take_eq_ok {α : Type} {name : String} {read : Tree → Except LoadError α}
    {set : α → σ → σ} {t : Tree} {s s' : σ} :
    (Setting.of name read set).take t s = .ok s' ↔ ∃ a, read t = .ok a ∧ set a s = s' := by
  simp only [Setting.of, bind_eq_ok, pure, Except.pure, Except.ok.injEq]

theorem Setting.group_take_eq_ok {name : String} {settings : List (Setting τ)} {get : σ → τ}
    {set : τ → σ → σ} {t : Tree} {s s' : σ} :
    (Setting.group name settings get set).take t s = .ok s' ↔
      ∃ a, takeSection settings t (get s) = .ok a ∧ set a s = s' := by
  simp only [Setting.group, bind_eq_ok, pure, Except.pure, Except.ok.injEq]

/-! ## Entries and items -/

theorem takeEntry_eq_ok {settings : List (Setting σ)} {entry : String × Tree} {s s' : σ} :
    takeEntry settings s entry = .ok s' ↔ ∃ setting,
      settings.find? (·.name = entry.1) = some setting ∧ setting.take entry.2 s = .ok s' := by
  unfold takeEntry
  cases settings.find? (·.name = entry.1) with
  | none => simp
  | some setting => simp [mapError_eq_ok]

theorem takeItem_eq_ok {item : (Setting σ × Tree) × Nat} {s s' : σ} :
    takeItem s item = .ok s' ↔ item.1.1.take item.1.2 s = .ok s' :=
  mapError_eq_ok

theorem find?_eq_none {α : Type} {name : String} {entries : List (String × α)}
    (h : name ∉ entries.map (·.1)) : find? name entries = none := by
  induction entries with
  | nil => rfl
  | cons entry entries ih =>
    obtain ⟨hhead, hrest⟩ := not_or.1 (fun hmem => h (List.mem_cons.2 hmem))
    rw [find?, if_neg (Ne.symm hhead), ih hrest]

/-- The items of a list under the names of the settings they stand for. -/
def named (settings : List (Setting σ)) (items : List Tree) : List (String × Tree) :=
  (settings.zip items).map fun p => (p.1.name, p.2)

/-- To take items is to take them under their names. -/
theorem foldlM_takeItem {all settings : List (Setting σ)} (hnames : (all.map (·.name)).Nodup)
    (hsub : ∀ setting ∈ settings, setting ∈ all) {items : List Tree} {n : Nat} {s s' : σ} :
    ((settings.zip items).zipIdx n).foldlM takeItem s = .ok s' ↔
      (named settings items).foldlM (takeEntry all) s = .ok s' := by
  induction settings generalizing items n s with
  | nil => rfl
  | cons setting settings ih =>
    cases items with
    | nil => rfl
    | cons t items =>
      obtain ⟨hhead, hrest⟩ := List.forall_mem_cons.1 hsub
      have hfind : all.find? (·.name = setting.name) = some setting := by
        cases hfound : all.find? (·.name = setting.name) with
        | none => simpa using List.find?_eq_none.1 hfound _ hhead
        | some found =>
          have hname : found.name = setting.name := by simpa using List.find?_some hfound
          rw [List.inj_on_of_nodup_map hnames (List.mem_of_find?_eq_some hfound) hhead hname]
      have hentry (mid : σ) : takeItem s ((setting, t), n) = .ok mid ↔
          takeEntry all s (setting.name, t) = .ok mid := by
        rw [takeItem_eq_ok, takeEntry_eq_ok]
        simp [hfind]
      rw [List.zip_cons_cons, List.zipIdx_cons, foldlM_cons_eq_ok, named, List.zip_cons_cons,
        List.map_cons, foldlM_cons_eq_ok]
      exact exists_congr fun mid => and_congr (hentry mid) (ih hrest)

theorem find?_named {settings : List (Setting σ)} {setting : Setting σ} {index : Nat}
    (hnames : (settings.map (·.name)).Nodup) (h : settings[index]? = some setting)
    (items : List Tree) : find? setting.name (named settings items) = items[index]? := by
  induction settings generalizing items index with
  | nil => cases h
  | cons head settings ih =>
    obtain ⟨hhead, hrest⟩ := List.nodup_cons.1 hnames
    cases items with
    | nil => rfl
    | cons t items =>
      rw [named, List.zip_cons_cons, List.map_cons, find?]
      cases index with
      | zero =>
        cases h
        rw [if_pos rfl]
        rfl
      | succ index =>
        have hne : head.name ≠ setting.name := fun heq =>
          hhead (List.mem_map.2 ⟨setting, List.mem_of_getElem? h, heq.symm⟩)
        rw [if_neg hne]
        exact ih hrest h items

theorem named_names (settings : List (Setting σ)) (items : List Tree) :
    ((named settings items).map (·.1)).Sublist (settings.map (·.name)) := by
  induction settings generalizing items with
  | nil => exact List.nil_sublist _
  | cons setting settings ih =>
    cases items with
    | nil => exact List.nil_sublist _
    | cons t items => exact (ih items).cons_cons setting.name

/-- One setting of a section, with what is seen of it: taking it changes that in
the way `R`, and taking any other does not change it. -/
structure Setting.Minds (settings : List (Setting σ)) (setting : Setting σ) (index : Nat)
    (see : σ → β) (R : Tree → β → β → Prop) : Prop where
  names : (settings.map (·.name)).Nodup
  position : settings[index]? = some setting
  self {t s s'} : setting.take t s = .ok s' → R t (see s) (see s')
  other {other t s s'} : other ∈ settings → other.name ≠ setting.name →
    other.take t s = .ok s' → see s' = see s

/-- What becomes of a setting of which `said` is said, or nothing. -/
def Becomes (R : Tree → β → β → Prop) (said : Option Tree) (b b' : β) : Prop :=
  match said with
  | some t => R t b b'
  | none => b' = b

namespace Setting.Minds

variable {settings : List (Setting σ)} {setting : Setting σ} {index : Nat} {see : σ → β}
  {R : Tree → β → β → Prop}

theorem foldlM_takeEntry (h : Minds settings setting index see R) {entries : List (String × Tree)}
    (hentries : (entries.map (·.1)).Nodup) {s s' : σ}
    (htake : entries.foldlM (takeEntry settings) s = .ok s') :
    Becomes R (find? setting.name entries) (see s) (see s') := by
  induction entries generalizing s with
  | nil =>
    cases htake
    rfl
  | cons entry entries ih =>
    obtain ⟨name, t⟩ := entry
    obtain ⟨hhead, hrest⟩ := List.nodup_cons.1 hentries
    obtain ⟨mid, hentry, hmid⟩ := foldlM_cons_eq_ok.1 htake
    obtain ⟨found, hfound, hentry⟩ := takeEntry_eq_ok.1 hentry
    have hname : found.name = name := by simpa using List.find?_some hfound
    have hlater := ih hrest hmid
    rw [find?]
    split
    · next heq =>
      have hself : found = setting := List.inj_on_of_nodup_map h.names
        (List.mem_of_find?_eq_some hfound) (List.mem_of_getElem? h.position) (hname.trans heq)
      rw [find?_eq_none (heq ▸ hhead)] at hlater
      subst hself
      exact hlater ▸ h.self hentry
    · next hne =>
      rwa [h.other (List.mem_of_find?_eq_some hfound) (hname ▸ hne) hentry] at hlater

/-- What becomes of a setting when its section is taken. -/
theorem takeSection (h : Minds settings setting index see R) {t : Tree} (ht : t.Ordered) {s s' : σ}
    (htake : takeSection settings t s = .ok s') :
    Becomes R (t.under? setting.name index) (see s) (see s') := by
  cases t with
  | table entries =>
    have hunder : (Tree.table entries).under? setting.name index = find? setting.name entries := by
      simp [Tree.under?, Tree.down?]
    rw [hunder]
    exact h.foldlM_takeEntry ht.ascending.nodup htake
  | list items =>
    have hunder : (Tree.list items).under? setting.name index = items[index]? := rfl
    rw [hunder, ← find?_named h.names h.position]
    exact h.foldlM_takeEntry ((named_names settings items).nodup h.names)
      ((foldlM_takeItem h.names fun _ => id).1 htake)
  | _ => cases htake

end Setting.Minds

/-! ## Where something can be said -/

/-- Whatever such a setting takes, it says nothing but at these places. -/
def Setting.Admits (setting : Setting σ) (P : Place → Prop) : Prop :=
  ∀ ⦃t s s'⦄, setting.take t s = .ok s' → ∀ ⦃place⦄, (t.at? place).isSome → P place

/-- The places of a section: its own, those below a setting, and those below an
item that has no setting in its position. -/
inductive Located (settings : List (Setting σ)) (P : Setting σ → Place → Prop) : Place → Prop
  | here : Located settings P []
  | entry {setting place} : setting ∈ settings → P setting place →
      Located settings P (.name setting.name :: place)
  | item {setting index place} : settings[index]? = some setting → P setting place →
      Located settings P (.item index :: place)
  | beyond {index place} : settings.length ≤ index → Located settings P (.item index :: place)

/-- What is found under a name is taken by the setting of that name. -/
theorem exists_take {settings : List (Setting σ)} {entries : List (String × Tree)} {s s' : σ}
    (htake : entries.foldlM (takeEntry settings) s = .ok s') {name : String} {t : Tree}
    (hfind : find? name entries = some t) : ∃ setting ∈ settings, setting.name = name ∧
      ∃ mid mid', setting.take t mid = .ok mid' := by
  induction entries generalizing s with
  | nil => cases hfind
  | cons entry entries ih =>
    obtain ⟨mid, hhead, hrest⟩ := foldlM_cons_eq_ok.1 htake
    rw [find?] at hfind
    split at hfind
    · next hname =>
      cases hfind
      obtain ⟨setting, hsetting, hhead⟩ := takeEntry_eq_ok.1 hhead
      have hname' : setting.name = entry.1 := by simpa using List.find?_some hsetting
      exact ⟨setting, List.mem_of_find?_eq_some hsetting, hname'.trans hname, s, mid, hhead⟩
    · exact ih hrest hfind

theorem located_of_takeSection {settings : List (Setting σ)} {P : Setting σ → Place → Prop}
    (hnames : (settings.map (·.name)).Nodup)
    (hadmits : ∀ setting ∈ settings, setting.Admits (P setting)) {t : Tree} {s s' : σ}
    (htake : takeSection settings t s = .ok s') {place : Place} (hplace : (t.at? place).isSome) :
    Located settings P place := by
  cases place with
  | nil => exact .here
  | cons step place =>
    rw [Tree.at?_cons] at hplace
    cases hdown : t.down? step with
    | none =>
      rw [hdown] at hplace
      cases hplace
    | some t' =>
      rw [hdown, Option.bind_some] at hplace
      cases t with
      | table entries =>
        cases step with
        | item => cases hdown
        | name name =>
          obtain ⟨setting, hmem, rfl, mid, mid', hsetting⟩ := exists_take htake hdown
          exact .entry hmem (hadmits setting hmem hsetting hplace)
      | list items =>
        cases step with
        | name => cases hdown
        | item index =>
          by_cases hindex : settings.length ≤ index
          · exact .beyond hindex
          · have hposition := List.getElem?_eq_getElem (Nat.lt_of_not_le hindex)
            have hfind := (find?_named hnames hposition items).trans hdown
            obtain ⟨setting, hmem, hname, mid, mid', hsetting⟩ :=
              exists_take ((foldlM_takeItem hnames fun _ => id).1 htake) hfind
            have heq := List.inj_on_of_nodup_map hnames hmem (List.mem_of_getElem? hposition) hname
            subst heq
            exact .item hposition (hadmits _ hmem hsetting hplace)
      | _ => cases htake

end ControlPlane.Settings
