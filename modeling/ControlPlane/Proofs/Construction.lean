/-
How a split is come by. It is filled by inserts, gathered from a list, made of a
map or read from an object, and what it holds in the end can be told without any
of that: an insert that is refused leaves what was there, so of a list the last
share that can be kept counts (`get?_ofList`); an object keeps the last member of
a name before shares are looked at, so a bad one takes the good ones before it
along (`split?_eq_some_iff`). All ways lead to the same form, in which a split is
told by its shares alone (`eq_of_get?`).
-/
import ControlPlane.Admin.Reply
import ControlPlane.Proofs.Record
import ControlPlane.Proofs.Worth

namespace ControlPlane

/-! ## The last entry -/

section Last

variable {α σ : Type} {p : α → Prop} {entries : List (String × α)} {name : String} {value : α}

/-- Of the entries of this name that have the property, the last has this value. -/
def Last (p : α → Prop) (entries : List (String × α)) (name : String) (value : α) : Prop :=
  ∃ before after, entries = before ++ (name, value) :: after ∧ p value ∧
    ∀ value', (name, value') ∈ after → ¬ p value'

/-- No entry of this name has the property. -/
def Lacks (p : α → Prop) (entries : List (String × α)) (name : String) : Prop :=
  ∀ value, (name, value) ∈ entries → ¬ p value

theorem Last.mem (h : Last p entries name value) : (name, value) ∈ entries ∧ p value := by
  obtain ⟨before, after, rfl, hp, -⟩ := h
  exact ⟨by simp, hp⟩

theorem lacks_cons {entry : String × α} : Lacks p (entry :: entries) name ↔
    ¬ (entry.1 = name ∧ p entry.2) ∧ Lacks p entries name := by
  obtain ⟨n, v⟩ := entry
  simp only [Lacks, List.mem_cons, Prod.mk.injEq]
  grind

theorem last_cons {entry : String × α} : Last p (entry :: entries) name value ↔
    Last p entries name value ∨
      Lacks p entries name ∧ entry.1 = name ∧ p entry.2 ∧ entry.2 = value := by
  constructor
  · rintro ⟨before, after, heq, hp, hafter⟩
    cases before with
    | nil =>
      obtain ⟨rfl, rfl⟩ : entry = (name, value) ∧ entries = after := by simpa using heq
      exact .inr ⟨hafter, rfl, hp, rfl⟩
    | cons first before =>
      obtain ⟨rfl, rfl⟩ : entry = first ∧ entries = before ++ (name, value) :: after := by
        simpa using heq
      exact .inl ⟨before, after, rfl, hp, hafter⟩
  · rintro (⟨before, after, rfl, hp, hafter⟩ | ⟨hlacks, rfl, hp, rfl⟩)
    · exact ⟨entry :: before, after, rfl, hp, hafter⟩
    · exact ⟨[], entries, rfl, hp, hlacks⟩

/-- Where each name stands once, the last entry is the only one. -/
theorem last_iff_of_ascending (h : Ascending entries) :
    Last p entries name value ↔ find? name entries = some value ∧ p value := by
  rw [find?_eq_some_iff h]
  refine ⟨Last.mem, fun ⟨hmem, hp⟩ => ?_⟩
  obtain ⟨before, after, rfl⟩ := List.append_of_mem hmem
  refine ⟨before, after, rfl, hp, fun value' hlater => ?_⟩
  have hname : Text.Before name name :=
    List.rel_of_pairwise_cons (List.pairwise_append.1 h).2.1 hlater
  exact absurd hname (Text.Before.irrefl name)

/-- What is looked up after taking in entries one by one, when each is put in
the place of an earlier one if it has the property, and passed over if not. -/
theorem foldl_eq_some_iff [DecidablePred p] {get : σ → String → Option α}
    {add : σ → String × α → σ}
    (hadd : ∀ s entry name,
      get (add s entry) name = if entry.1 = name ∧ p entry.2 then some entry.2 else get s name)
    (s : σ) : get (entries.foldl add s) name = some value ↔
      Last p entries name value ∨ Lacks p entries name ∧ get s name = some value := by
  induction entries generalizing s with
  | nil => simp [Last, Lacks]
  | cons entry entries ih =>
    rw [List.foldl_cons, ih, hadd, last_cons, lacks_cons]
    by_cases hentry : entry.1 = name ∧ p entry.2
    · obtain ⟨rfl, hp⟩ := hentry
      simp [hp]
    · rw [if_neg hentry]
      constructor
      · rintro (hlast | ⟨hlacks, hget⟩)
        · exact .inl (.inl hlast)
        · exact .inr ⟨⟨hentry, hlacks⟩, hget⟩
      · rintro ((hlast | ⟨-, hname, hp, -⟩) | ⟨⟨-, hlacks⟩, hget⟩)
        · exact .inl hlast
        · exact absurd ⟨hname, hp⟩ hentry
        · exact .inr ⟨hlacks, hget⟩

end Last

/-! ## Maps -/

theorem Ascending.nodup {α : Type} {entries : List (String × α)} (h : Ascending entries) :
    (entries.map Prod.fst).Nodup := by
  refine List.pairwise_map.2 (h.imp fun {e e'} hbefore heq => ?_)
  rw [heq] at hbefore
  exact Text.Before.irrefl _ hbefore

/-- Entries in name order are told by what is found among them. -/
theorem Ascending.eq_of_find? {α : Type} {entries entries' : List (String × α)}
    (h : Ascending entries) (h' : Ascending entries')
    (hfind : ∀ name, find? name entries = find? name entries') : entries = entries' := by
  have hmem (e : String × α) : e ∈ entries ↔ e ∈ entries' := by
    rw [← find?_eq_some_iff h, ← find?_eq_some_iff h', hfind]
  have hperm : entries.Perm entries' :=
    (List.perm_ext_iff_of_nodup (List.Nodup.of_map _ h.nodup) (List.Nodup.of_map _ h'.nodup)).2 hmem
  exact hperm.eq_of_pairwise (fun e e' _ _ hlt hlt' => absurd hlt' hlt.asymm) h h'

theorem NameMap.get?_ofList {α : Type} {entries : List (String × α)} {name : String} {value : α} :
    (NameMap.ofList entries).get? name = some value ↔ Last (fun _ => True) entries name value := by
  have hadd (m : NameMap α) (entry : String × α) (name : String) :
      (m.insert entry.1 entry.2).get? name =
        if entry.1 = name ∧ True then some entry.2 else m.get? name := by
    by_cases hname : entry.1 = name
    · subst hname
      simp [NameMap.get?_insert_self]
    · rw [NameMap.get?_insert_other m (Ne.symm hname), if_neg (by simp [hname])]
  have hempty : (NameMap.empty : NameMap α).get? name = none := rfl
  have hfold : (NameMap.ofList entries).get? name = some value ↔
      Last (fun _ => True) entries name value ∨
        Lacks (fun _ => True) entries name ∧ (NameMap.empty : NameMap α).get? name = some value :=
    foldl_eq_some_iff (p := fun _ => True) hadd .empty
  simpa [hempty] using hfold

namespace TrafficSplit

/-! ## Ways to come by a split -/

theorem get?_insert (split : TrafficSplit) (version : String) (share : Double) (name : String) :
    (split.insert version share).get? name =
      if version = name ∧ share.IsUsable then some share else split.get? name := by
  by_cases husable : share.IsUsable
  · have hinsert : split.insert version share =
        ⟨split.shares.insert version share, fun _ he => by
          rcases mem_put he with rfl | he
          · exact husable
          · exact split.usable _ he⟩ := by
      simp [insert, insert?, husable]
    by_cases hname : version = name
    · subst hname
      rw [if_pos ⟨rfl, husable⟩, hinsert]
      exact NameMap.get?_insert_self _ _ _
    · rw [if_neg fun h => hname h.1, hinsert]
      exact NameMap.get?_insert_other _ (Ne.symm hname) _
  · rw [if_neg fun h => husable h.2]
    simp [insert, insert?, husable]

/-- A split is told by its shares. -/
theorem eq_of_get? {split split' : TrafficSplit} (h : ∀ name, split.get? name = split'.get? name) :
    split = split' := by
  have hlist : split.shares.toList = split'.shares.toList :=
    split.shares.ascending.eq_of_find? split'.shares.ascending h
  obtain ⟨⟨entries, _⟩, _⟩ := split
  obtain ⟨⟨entries', _⟩, _⟩ := split'
  cases hlist
  rfl

/-- Inserts, in order. -/
def insertAll (split : TrafficSplit) (entries : List (String × Double)) : TrafficSplit :=
  entries.foldl (fun split e => split.insert e.1 e.2) split

/-- Of several inserts the last one that is not refused counts. -/
theorem get?_insertAll {split : TrafficSplit} {entries : List (String × Double)} {name : String}
    {share : Double} : (split.insertAll entries).get? name = some share ↔
      Last Double.IsUsable entries name share ∨
        Lacks Double.IsUsable entries name ∧ split.get? name = some share :=
  foldl_eq_some_iff (fun split entry name => split.get?_insert entry.1 entry.2 name) split

theorem get?_ofList {entries : List (String × Double)} {name : String} {share : Double} :
    (ofList entries).get? name = some share ↔ Last Double.IsUsable entries name share := by
  have hempty : empty.get? name = none := rfl
  have hlist : ofList entries = empty.insertAll entries := rfl
  simp [hlist, get?_insertAll, hempty]

theorem get?_ofMap {map : NameMap Double} {name : String} {share : Double} :
    (ofMap map).get? name = some share ↔ map.get? name = some share ∧ share.IsUsable :=
  get?_ofList.trans (last_iff_of_ascending map.ascending)

/-- A split made into a map and back is what it was. -/
theorem ofMap_toMap (split : TrafficSplit) : ofMap split.toMap = split := by
  refine eq_of_get? fun name => Option.ext fun share => ?_
  rw [get?_ofMap]
  exact ⟨fun h => h.1, fun h => ⟨h, get?_usable h⟩⟩

/-- An object gives each name the share of its last member, if that can be kept. -/
theorem split?_eq_some_iff {json : Json} {split : TrafficSplit} :
    Admin.split? json = some split ↔ ∃ members entries, json = .object members ∧
      List.Forall₂ (Json.Holds Json.double?) members entries ∧
      ∀ name share, split.get? name = some share ↔
        Last (fun _ => True) entries name share ∧ share.IsUsable := by
  have hget (entries : List (String × Double)) (name : String) (share : Double) :
      (ofMap (.ofList entries)).get? name = some share ↔
        Last (fun _ => True) entries name share ∧ share.IsUsable := by
    rw [get?_ofMap, NameMap.get?_ofList]
  simp only [Admin.split?, Option.map_eq_some_iff, Json.entries?_eq_some_iff]
  constructor
  · rintro ⟨entries, ⟨members, rfl, hmembers⟩, rfl⟩
    exact ⟨members, entries, rfl, hmembers, hget entries⟩
  · rintro ⟨members, entries, rfl, hmembers, hsplit⟩
    refine ⟨entries, ⟨members, rfl, hmembers⟩, eq_of_get? fun name => Option.ext fun share => ?_⟩
    rw [hget, hsplit]

/-! ## Walks -/

namespace Cursor

/-- From the first cursor on these entries are drawn, up to the second one. -/
inductive Draws : Cursor → List (String × Double) → Cursor → Prop
  | none {c} : Draws c [] c
  | next {c c' c'' e entries} : c.next? = some (e, c') → Draws c' entries c'' →
      Draws c (e :: entries) c''

/-- As many entries are ahead as are counted. -/
def Counted (c : Cursor) : Prop := c.left = c.ahead.length

theorem Counted.next? {c c' : Cursor} {e : String × Double} (h : c.Counted)
    (hnext : c.next? = some (e, c')) : c.ahead = e :: c'.ahead ∧ c'.Counted := by
  obtain ⟨ahead, left⟩ := c
  simp only [Counted] at h
  subst h
  cases ahead with
  | nil => simp [Cursor.next?] at hnext
  | cons e' ahead =>
    simp only [Cursor.next?, List.length_cons, Option.some.injEq, Prod.mk.injEq] at hnext
    obtain ⟨rfl, rfl⟩ := hnext
    exact ⟨rfl, rfl⟩

theorem Draws.counted {c c' : Cursor} {entries : List (String × Double)}
    (h : Draws c entries c') (hc : c.Counted) : c.ahead = entries ++ c'.ahead ∧ c'.Counted := by
  induction h with
  | none => exact ⟨rfl, hc⟩
  | next hnext _ ih =>
    obtain ⟨hahead, hc'⟩ := hc.next? hnext
    obtain ⟨hrest, hc''⟩ := ih hc'
    exact ⟨by rw [hahead, hrest, List.cons_append], hc''⟩

theorem draws_ahead {c : Cursor} (hc : c.Counted) : Draws c c.ahead ⟨[], 0⟩ := by
  obtain ⟨ahead, left⟩ := c
  simp only [Counted] at hc
  subst hc
  induction ahead with
  | nil => exact .none
  | cons e ahead ih => exact .next rfl ih

end Cursor

/-! ## The form of a split -/

/-- What a split keeps to. -/
structure Regular (split : TrafficSplit) : Prop where
  /-- Every share is a number from zero on. -/
  usable : ∀ name share, split.get? name = some share →
    share.isFinite = true ∧ 0 ≤ share.value
  /-- What is listed is what is held. -/
  listed : ∀ name share, (name, share) ∈ split.toList ↔ split.get? name = some share
  once : (split.toList.map Prod.fst).Nodup
  /-- Names ascend by their bytes. -/
  ascending : split.toList.Pairwise fun e e' => Utf8.encode e.1 < Utf8.encode e'.1
  size_eq : split.size = split.toList.length
  isEmpty_iff : split.isEmpty = true ↔ split.size = 0
  /-- A walk draws the entries as they are listed, and at any moment it knows how
  many are still to be drawn. -/
  drawn : ∀ entries c, split.cursor.Draws entries c → ∃ rest last, split.toList = entries ++ rest ∧
    c.Draws rest last ∧ last.next? = none ∧ c.sizeHint = (rest.length, some rest.length)
  /-- To be made into a map and back changes nothing. -/
  restored : ofMap split.toMap = split

theorem regular (split : TrafficSplit) : split.Regular where
  usable name share h := Double.isUsable_iff.1 (get?_usable h)
  listed name share := get?_eq_some_iff.symm
  once := split.shares.ascending.nodup
  ascending := split.shares.ascending
  size_eq := rfl
  isEmpty_iff := by simp [isEmpty, size, NameMap.size, toList]
  drawn entries c h := by
    have hcursor : split.cursor.Counted := rfl
    obtain ⟨hahead, hc⟩ := h.counted hcursor
    refine ⟨c.ahead, ⟨[], 0⟩, hahead, Cursor.draws_ahead hc, rfl, ?_⟩
    rw [Cursor.sizeHint, hc]
  restored := ofMap_toMap split

/-! ## Sequences -/

/-- A way to come by a split when there is one already. All but an insert put
another in its place. -/
inductive Move
  | new
  | insert (version : String) (share : Double)
  | collect (entries : List (String × Double))
  | convert (map : NameMap Double)
  | decode (json : Json)

namespace Move

/-- The split after a move. There is none if the JSON is not that of a split. -/
def step? (split : TrafficSplit) : Move → Option TrafficSplit
  | new => some .empty
  | insert version share => some (split.insert version share)
  | collect entries => some (.ofList entries)
  | convert map => some (.ofMap map)
  | decode json => Admin.split? json

/-- The JSON is an object whose members are these entries. -/
def Reads (json : Json) (entries : List (String × Double)) : Prop :=
  ∃ members, json = .object members ∧ List.Forall₂ (Json.Holds Json.double?) members entries

/-- The move itself gives the name this share. -/
def Sets (name : String) (share : Double) : Move → Prop
  | new => False
  | insert version given => version = name ∧ given.IsUsable ∧ given = share
  | collect entries => Last Double.IsUsable entries name share
  | convert map => map.get? name = some share ∧ share.IsUsable
  | decode json => ∃ entries, Reads json entries ∧
      Last (fun _ => True) entries name share ∧ share.IsUsable

/-- The move leaves the name as it was, as an insert does that is refused or is
for another name. -/
def Leaves (name : String) : Move → Prop
  | insert version given => ¬ (version = name ∧ given.IsUsable)
  | _ => False

/-- Whether the name has the share after a move, by what it had before. -/
def After (had : String → Double → Prop) (move : Move) (name : String) (share : Double) : Prop :=
  move.Sets name share ∨ move.Leaves name ∧ had name share

/-- The moves, one after the other, from a split that holds nothing. -/
def run? (moves : List Move) : Option TrafficSplit := moves.foldlM step? .empty

/-- Whether the name has the share in the end. -/
def Told (moves : List Move) : String → Double → Prop := moves.foldl After fun _ _ => False

theorem Reads.unique {json : Json} {entries entries' : List (String × Double)}
    (h : Reads json entries) (h' : Reads json entries') : entries = entries' := by
  have hread (entries : List (String × Double)) :
      Reads json entries ↔ json.entries? Json.double? = some entries :=
    Json.entries?_eq_some_iff.symm
  rw [hread] at h h'
  exact Option.some.inj (h.symm.trans h')

theorem after_step? {split split' : TrafficSplit} {move : Move}
    (h : step? split move = some split') (name : String) (share : Double) :
    split'.get? name = some share ↔
      After (fun name share => split.get? name = some share) move name share := by
  have hempty : empty.get? name = none := rfl
  cases move with
  | new =>
    cases h
    simp [After, Sets, Leaves, hempty]
  | insert version given =>
    cases h
    by_cases hset : version = name ∧ given.IsUsable
    · simp [After, Sets, Leaves, get?_insert, hset]
    · have hnot : ¬ (version = name ∧ given.IsUsable ∧ given = share) :=
        fun h => hset ⟨h.1, h.2.1⟩
      rw [get?_insert, if_neg hset]
      simp [After, Sets, Leaves, hnot, hset]
  | collect entries =>
    cases h
    simp [After, Sets, Leaves, get?_ofList]
  | convert map =>
    cases h
    simp [After, Sets, Leaves, get?_ofMap]
  | decode json =>
    obtain ⟨members, entries, hjson, hmembers, hsplit⟩ := split?_eq_some_iff.1 h
    have hreads : Reads json entries := ⟨members, hjson, hmembers⟩
    simp only [After, Sets, Leaves, false_and, or_false, hsplit]
    constructor
    · intro hlast
      exact ⟨entries, hreads, hlast⟩
    · intro ⟨entries', hreads', hlast⟩
      rwa [hreads.unique hreads']

/-- A move fails just if it is to read what is no object of numbers. -/
theorem step?_isSome_iff {split : TrafficSplit} {move : Move} :
    (∃ split', step? split move = some split') ↔
      ∀ json, move = .decode json → ∃ entries, Reads json entries := by
  cases move with
  | decode json =>
    have hread : (∃ split', Admin.split? json = some split') ↔ ∃ entries, Reads json entries := by
      simp only [Admin.split?, Option.map_eq_some_iff, Json.entries?_eq_some_iff, Reads]
      exact ⟨fun ⟨_, entries, h, _⟩ => ⟨entries, h⟩, fun ⟨entries, h⟩ => ⟨_, entries, h, rfl⟩⟩
    simpa [step?] using hread
  | _ => simp [step?]

/-- What is had before a run, and what the run makes of it, is had after it. -/
theorem told_run? {moves : List Move} {split split' : TrafficSplit}
    (h : moves.foldlM step? split = some split') (name : String) (share : Double) :
    split'.get? name = some share ↔
      moves.foldl After (fun name share => split.get? name = some share) name share := by
  induction moves generalizing split with
  | nil =>
    cases h
    rfl
  | cons move moves ih =>
    rw [List.foldlM_cons, Option.bind_eq_bind, Option.bind_eq_some_iff] at h
    obtain ⟨next, hnext, hrest⟩ := h
    have hafter : (fun name share => next.get? name = some share) =
        After (fun name share => split.get? name = some share) move := by
      funext name share
      exact propext (after_step? hnext name share)
    rw [ih hrest, hafter, List.foldl_cons]

theorem foldlM_step?_isSome_iff {moves : List Move} {split : TrafficSplit} :
    (∃ split', moves.foldlM step? split = some split') ↔
      ∀ json, .decode json ∈ moves → ∃ entries, Reads json entries := by
  induction moves generalizing split with
  | nil => simp
  | cons move moves ih =>
    have hstep : (∃ split', (move :: moves).foldlM step? split = some split') ↔
        (∃ next, step? split move = some next) ∧
          ∀ json, .decode json ∈ moves → ∃ entries, Reads json entries := by
      simp only [List.foldlM_cons, Option.bind_eq_bind, Option.bind_eq_some_iff]
      constructor
      · intro ⟨split', next, hnext, hrest⟩
        exact ⟨⟨next, hnext⟩, ih.1 ⟨split', hrest⟩⟩
      · intro ⟨⟨next, hnext⟩, hmoves⟩
        obtain ⟨split', hrest⟩ := ih.2 hmoves
        exact ⟨split', next, hnext, hrest⟩
    rw [hstep, step?_isSome_iff]
    simp only [List.mem_cons, or_imp, forall_and, eq_comm]

end Move

/-- Whatever moves a split comes from, it has the form of one and holds what the
moves tell. An insert that is refused leaves it as it was; of several inserts,
the last that is not refused counts for its name. -/
theorem construction_kept :
    (∀ moves split, Move.run? moves = some split →
      split.Regular ∧ ∀ name share, split.get? name = some share ↔ Move.Told moves name share) ∧
    (∀ moves, (∃ split, Move.run? moves = some split) ↔
      ∀ json, .decode json ∈ moves → ∃ entries, Move.Reads json entries) ∧
    (∀ (split : TrafficSplit) version share,
      (split.insert? version share = none ↔ ¬ (share.isFinite = true ∧ 0 ≤ share.value)) ∧
      (split.insert? version share = none → split.insert version share = split)) ∧
    (∀ (split : TrafficSplit) entries name share,
      (split.insertAll entries).get? name = some share ↔
        Last Double.IsUsable entries name share ∨
          Lacks Double.IsUsable entries name ∧ split.get? name = some share) := by
  refine ⟨fun moves split h => ⟨split.regular, fun name share => ?_⟩, fun moves => ?_,
    fun split version share => ⟨?_, fun h => ?_⟩, fun split entries name share => get?_insertAll⟩
  · have hempty : (fun name share => empty.get? name = some share) = fun _ _ => False := by
      funext name share
      simp [empty, get?, NameMap.get?, NameMap.empty, find?]
    rw [Move.told_run? h, hempty, Move.Told]
  · exact Move.foldlM_step?_isSome_iff
  · rw [← Double.isUsable_iff]
    simp [insert?]
  · rw [insert, h, Option.getD_none]

/-- A bad share leaves its name without one when it stands last in an object,
and with the one it had when it is inserted. -/
theorem construction_kept_bad_shares :
    let member (name : String) (negative : Bool) : Json.RawText × Json :=
      (.ofString name, .number ⟨negative, [1], [], none⟩)
    let moves : List Move :=
      [.decode (.object [member "a" false, member "a" true, member "b" false]),
        .insert "b" (.ofInt (-1))]
    ∃ split, Move.run? moves = some split ∧ split.Regular ∧
      split.get? "a" = none ∧ split.get? "b" = some .one := by
  intro member moves
  have hgets : (Move.run? moves).map (fun split => (split.get? "a", split.get? "b")) =
      some (none, some .one) := by decide +kernel
  obtain ⟨split, hsplit, hget⟩ := Option.map_eq_some_iff.1 hgets
  exact ⟨split, hsplit, (construction_kept.1 moves split hsplit).1, congrArg Prod.fst hget,
    congrArg Prod.snd hget⟩

end TrafficSplit
end ControlPlane
