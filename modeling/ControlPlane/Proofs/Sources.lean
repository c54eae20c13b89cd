/-
What each source of settings says. Whatever a file or a variable holds, each
table in it has its names in order, so it can be merged (`isTable_fileTree?`,
`ordered_ofVariables`). Where every variable is for a single setting and none is
for that of another, the variables together say of a setting just what its own
one does (`at?_layered`): no path of a setting begins with that of another
(`leaf_of_begins`), so nothing stands in the way.
-/
import ControlPlane.Proofs.Leaves

namespace ControlPlane.Settings

/-! ## What is read is ordered -/

namespace Notation

theorem ordered_bare (cs : List Char) : (bare cs).Ordered := by
  unfold bare
  split
  · exact .real
  · split
    · exact .int _
    · exact .int _
    · exact .text _

/-- What is read with so much fuel is ordered. -/
structure ReadsOrdered (fuel : Nat) : Prop where
  value {cs v rest} : readValue? fuel cs = some (v, rest) → v.Ordered
  items {cs items rest} : readItems? fuel cs = some (items, rest) → ∀ t ∈ items, t.Ordered
  entries {cs entries rest} : readEntries? fuel cs = some (entries, rest) →
    ∀ e ∈ entries, e.2.Ordered

theorem reads_ordered (fuel : Nat) : ReadsOrdered fuel := by
  induction fuel with
  | zero => exact ⟨nofun, nofun, nofun⟩
  | succ fuel ih =>
    refine ⟨fun {cs v rest} h => ?_, fun {cs items rest} h => ?_, fun {cs entries rest} h => ?_⟩
    · rw [readValue?] at h
      simp only [Option.map_eq_some_iff, Prod.exists] at h
      obtain ⟨v', rest', h, heq⟩ := h
      cases heq
      split at h
      · cases h; exact .bool _
      · cases h; exact .bool _
      · obtain ⟨⟨entries, _⟩, hentries, heq⟩ := Option.map_eq_some_iff.1 h
        cases heq
        exact Tree.ordered_ofEntries (ih.entries hentries)
      · obtain ⟨⟨items, _⟩, hitems, heq⟩ := Option.map_eq_some_iff.1 h
        cases heq
        exact .list (ih.items hitems)
      · obtain ⟨_, _, heq⟩ := Option.map_eq_some_iff.1 h
        cases heq
        exact .text _
      · cases h; exact .text _
      · cases h
      · cases h; exact ordered_bare _
    · rw [readItems?.eq_def] at h
      dsimp only at h
      split at h
      · cases h; exact nofun
      · split at h
        · next hitem =>
          obtain ⟨⟨items, _⟩, hitems, heq⟩ := Option.map_eq_some_iff.1 h
          cases heq
          exact List.forall_mem_cons.2 ⟨ih.value hitem, ih.items hitems⟩
        · next hitem =>
          cases h
          exact List.forall_mem_singleton.2 (ih.value hitem)
        · cases h
    · rw [readEntries?.eq_def] at h
      dsimp only at h
      split at h
      · cases h; exact nofun
      · split at h
        · cases h
        · split at h
          · split at h
            · next hvalue =>
              obtain ⟨⟨entries, _⟩, hentries, heq⟩ := Option.map_eq_some_iff.1 h
              cases heq
              exact List.forall_mem_cons.2 ⟨ih.value hvalue, ih.entries hentries⟩
            · next hvalue =>
              cases h
              exact List.forall_mem_singleton.2 (ih.value hvalue)
            · cases h
          · cases h

theorem ordered_read (s : String) : (read s).Ordered := by
  unfold read
  dsimp only
  split
  · next h => exact (reads_ordered _).value h
  · exact .text s

end Notation

mutual

theorem ordered_ofNode? {room : Nat} {t : Tree} : ∀ {node : Yaml.Node},
    ofNode? room node = some t → t.Ordered
  | .scalar s plain tag, h => by
    rw [ofNode?] at h
    obtain ⟨value, -, rfl⟩ := Option.map_eq_some_iff.1 h
    cases value with
    | null => exact .absent
    | bool b => exact .bool b
    | int n => exact .int n
    | real => exact .real
    | text s => exact .text s
  | .sequence items tag, h => by
    rw [ofNode?] at h
    split at h
    · obtain ⟨trees, htrees, rfl⟩ := Option.map_eq_some_iff.1 h
      exact .list (ordered_ofItems? htrees)
    · cases h
  | .mapping entries tag, h => by
    rw [ofNode?] at h
    split at h
    · obtain ⟨trees, htrees, rfl⟩ := Option.map_eq_some_iff.1 h
      exact Tree.ordered_ofEntries (ordered_ofEntries? htrees)
    · cases h

theorem ordered_ofItems? {room : Nat} {trees : List Tree} : ∀ {items : List Yaml.Node},
    ofItems? room items = some trees → ∀ t ∈ trees, t.Ordered
  | [], h => by
    cases h
    exact nofun
  | item :: rest, h => by
    rw [ofItems?] at h
    split at h
    · next htree htrees =>
      cases h
      exact List.forall_mem_cons.2 ⟨ordered_ofNode? htree, ordered_ofItems? htrees⟩
    · cases h

theorem ordered_ofEntries? {room : Nat} {trees : List (String × Tree)} :
    ∀ {entries : List (Yaml.Node × Yaml.Node)},
    ofEntries? room entries = some trees → ∀ e ∈ trees, e.2.Ordered
  | [], h => by
    cases h
    exact nofun
  | (.scalar name plain tag, value) :: rest, h => by
    rw [ofEntries?] at h
    split at h
    · next htree htrees =>
      cases h
      exact List.forall_mem_cons.2 ⟨ordered_ofNode? htree, ordered_ofEntries? htrees⟩
    · cases h
  | (.sequence .., _) :: _, h => nomatch h
  | (.mapping .., _) :: _, h => nomatch h

end

/-- A file holds a table. -/
theorem isTable_ofRoot? {node : Yaml.Node} {t : Tree} (h : ofRoot? node = some t) :
    t.IsTable ∧ t.Ordered := by
  unfold ofRoot? at h
  split at h
  · obtain ⟨entries, hentries, rfl⟩ := Option.map_eq_some_iff.1 h
    exact ⟨⟨_, rfl⟩, Tree.ordered_ofEntries (ordered_ofEntries? hentries)⟩
  · cases h
    exact ⟨⟨_, rfl⟩, Tree.ordered_nothing⟩
  · cases h

/-- What a file says, or nothing without one. -/
def fileTree? (file : Option Bytes) : Option Tree := file.elim (some .nothing) ofFile?

theorem isTable_fileTree? {file : Option Bytes} {t : Tree} (h : fileTree? file = some t) :
    t.IsTable ∧ t.Ordered := by
  cases file with
  | none =>
    cases h
    exact ⟨⟨_, rfl⟩, Tree.ordered_nothing⟩
  | some bytes =>
    simp only [fileTree?, Option.elim_some, ofFile?, ofText?, Option.bind_eq_some_iff] at h
    obtain ⟨text, -, node, -, hroot⟩ := h
    exact isTable_ofRoot? hroot

theorem ordered_ofVariable? {name value : String} {t : Tree} (h : ofVariable? name value = some t) :
    t.Ordered := by
  obtain ⟨path, -, rfl⟩ := Option.map_eq_some_iff.1 h
  exact Tree.ordered_nest (Notation.ordered_read _) path

/-! ## What is said at the end of a path -/

namespace Tree

variable {path path' : List String} {v : Tree}

theorem down?_nest_cons (name : String) (path : List String) (v : Tree) (name' : String) :
    (nest (name :: path) v).down? (.name name') =
      if name = name' then some (nest path v) else none := rfl

/-- Nothing stands in the way to a place that is not below that of the value. -/
theorem nest_open (h : path <+: path' → path = path') : (nest path v).Open (placeOf path') := by
  induction path generalizing path' with
  | nil =>
    rw [← h (List.nil_prefix)]
    trivial
  | cons name path ih =>
    cases path' with
    | nil => trivial
    | cons name' path' =>
      refine ⟨⟨_, rfl⟩, fun t hdown => ?_⟩
      rw [down?_nest_cons] at hdown
      split at hdown
      · next hname =>
        cases hdown
        exact ih fun hp => (List.cons.inj (h (hname ▸ List.cons_prefix_cons.2 ⟨rfl, hp⟩))).2
      · cases hdown

theorem at?_nest (h : path <+: path' → path = path') (h' : path' <+: path → path' = path) :
    (nest path v).at? (placeOf path') = if path = path' then some v else none := by
  induction path generalizing path' with
  | nil =>
    obtain rfl := h List.nil_prefix
    rfl
  | cons name path ih =>
    cases path' with
    | nil => exact absurd (h' List.nil_prefix) (by simp)
    | cons name' path' =>
      rw [placeOf, List.map_cons, at?_cons, down?_nest_cons]
      by_cases hname : name = name'
      · subst hname
        rw [if_pos rfl, Option.bind_some]
        have hrest := @ih path'
          (fun hp => (List.cons.inj (h (List.cons_prefix_cons.2 ⟨rfl, hp⟩))).2)
          fun hp => (List.cons.inj (h' (List.cons_prefix_cons.2 ⟨rfl, hp⟩))).2
        simpa [placeOf] using hrest
      · rw [if_neg hname, if_neg fun heq => hname (List.cons.inj heq).1]
        rfl

end Tree

/-! ## Variables -/

/-- The value that the variable for a setting has, if there is one. -/
def told? (environment : List (String × String)) (path : List String) : Option Tree :=
  environment.findSome? fun e =>
    if variablePath? e.1 = some path then some (Notation.read (Text.trim e.2)) else none

/-- Whether some variable is for a setting of this section. -/
def touches (environment : List (String × String)) (group : String) : Bool :=
  environment.any fun e => (variablePath? e.1).any fun path => path.head? == some group

/-- Each variable for settings is for a single one, and none is for that of
another. -/
structure NamesLeaves (environment : List (String × String)) : Prop where
  leaf : ∀ e ∈ environment, ∀ path, variablePath? e.1 = some path →
    ∃ leaf ∈ leaves, leaf.path = path
  once : environment.Pairwise fun e e' =>
    ∀ path, variablePath? e.1 = some path → variablePath? e'.1 ≠ some path

theorem leaf_of_begins : ∀ leaf ∈ leaves, ∀ leaf' ∈ leaves, leaf.path <+: leaf'.path →
    leaf.path = leaf'.path := by decide

theorem NamesLeaves.tail {e : String × String} {environment : List (String × String)}
    (h : NamesLeaves (e :: environment)) : NamesLeaves environment :=
  ⟨fun e' he' => h.leaf e' (List.mem_cons_of_mem _ he'), (List.pairwise_cons.1 h.once).2⟩

/-- What one variable says. -/
def layer? (e : String × String) : Option Tree := ofVariable? e.1 e.2

theorem layer?_eq_some_iff {e : String × String} {t : Tree} : layer? e = some t ↔
    ∃ path, variablePath? e.1 = some path ∧ Tree.nest path (Notation.read (Text.trim e.2)) = t :=
  Option.map_eq_some_iff

/-- What variables say on top of what has been said. -/
def layered (environment : List (String × String)) (t : Tree) : Tree :=
  (environment.filterMap layer?).foldl Tree.merge t

theorem ofVariables_eq (environment : List (String × String)) :
    ofVariables environment = layered environment .nothing := rfl

theorem layered_append (before after : List (String × String)) (t : Tree) :
    layered (before ++ after) t = layered after (layered before t) := by
  rw [layered, List.filterMap_append, List.foldl_append, layered, layered]

theorem layered_cons_none {e : String × String} (h : variablePath? e.1 = none)
    (rest : List (String × String)) (t : Tree) : layered (e :: rest) t = layered rest t := by
  have hlayer : layer? e = none := by rw [layer?, ofVariable?, h]; rfl
  rw [layered, List.filterMap_cons_none hlayer, layered]

theorem layered_cons_some {e : String × String} {path : List String}
    (h : variablePath? e.1 = some path) (rest : List (String × String)) (t : Tree) :
    layered (e :: rest) t =
      layered rest (t.merge (Tree.nest path (Notation.read (Text.trim e.2)))) := by
  rw [layered, List.filterMap_cons_some (layer?_eq_some_iff.2 ⟨path, h, rfl⟩), List.foldl_cons,
    layered]

theorem ordered_layered (environment : List (String × String)) {t : Tree} (ht : t.Ordered) :
    (layered environment t).Ordered := by
  refine List.foldlRecOn _ Tree.merge ht fun t ht t' ht' => ?_
  obtain ⟨e, -, he⟩ := List.mem_filterMap.1 ht'
  exact (ordered_ofVariable? he).merge ht

theorem isTable_nothing : Tree.nothing.IsTable := ⟨[], rfl⟩

theorem isTable_nest {path : List String} (h : path ≠ []) (v : Tree) :
    (Tree.nest path v).IsTable := by
  obtain ⟨name, path, rfl⟩ := List.exists_cons_of_ne_nil h
  exact ⟨_, rfl⟩

/-- A path has a first name. -/
theorem variablePath?_ne_nil {name : String} {path : List String}
    (h : variablePath? name = some path) : path ≠ [] := by
  have hpieces : ∀ cs, pieces cs ≠ [] := fun cs => by
    fun_cases pieces cs <;> simp
  unfold variablePath? at h
  dsimp only at h
  split at h
  · split at h
    · cases h
    · cases h
      simpa using hpieces _
  · cases h

theorem isTable_layered (environment : List (String × String)) {t : Tree} (ht : t.IsTable) :
    (layered environment t).IsTable := by
  refine List.foldlRecOn _ Tree.merge ht fun t _ t' ht' => Tree.merge_isTable.2 ?_
  obtain ⟨e, -, he⟩ := List.mem_filterMap.1 ht'
  obtain ⟨path, hpath, rfl⟩ := layer?_eq_some_iff.1 he
  exact isTable_nest (variablePath?_ne_nil hpath) _

theorem isTable_ofVariables (environment : List (String × String)) :
    (ofVariables environment).IsTable := isTable_layered environment isTable_nothing

theorem ordered_ofVariables (environment : List (String × String)) :
    (ofVariables environment).Ordered := ordered_layered environment Tree.ordered_nothing

/-- The first variable for a setting tells it; any other leaves it alone. -/
theorem told?_cons (e : String × String) (rest : List (String × String)) (path : List String) :
    told? (e :: rest) path = (if variablePath? e.1 = some path then
      some (Notation.read (Text.trim e.2)) else told? rest path) := by
  rw [told?, List.findSome?_cons]
  by_cases h : variablePath? e.1 = some path
  · rw [if_pos h, if_pos h]
  · rw [if_neg h, if_neg h]
    rfl

theorem told?_eq_none {environment : List (String × String)} {path : List String}
    (h : ∀ e ∈ environment, variablePath? e.1 ≠ some path) : told? environment path = none := by
  rw [told?, List.findSome?_eq_none_iff]
  exact fun e he => if_neg (h e he)

variable {environment : List (String × String)} {leaf : Leaf}

/-- At the place of a setting the variables say what its own variable does. -/
theorem at?_layered (henv : NamesLeaves environment) (hleaf : leaf ∈ leaves) {t : Tree}
    (ht : t.Open (placeOf leaf.path)) : (layered environment t).Open (placeOf leaf.path) ∧
      (layered environment t).at? (placeOf leaf.path) =
        Option.merge Tree.merge (t.at? (placeOf leaf.path)) (told? environment leaf.path) := by
  induction environment generalizing t with
  | nil => exact ⟨ht, Option.merge_none_right.symm⟩
  | cons e rest ih =>
    cases hpath : variablePath? e.1 with
    | none =>
      rw [layered_cons_none hpath, told?_cons, if_neg (by simp [hpath])]
      exact ih henv.tail ht
    | some path =>
      obtain ⟨leaf', hleaf', rfl⟩ := henv.leaf e (List.mem_cons_self ..) path hpath
      have hprefix := leaf_of_begins leaf' hleaf' leaf hleaf
      have hopen := Tree.nest_open (v := Notation.read (Text.trim e.2)) hprefix
      have hordered := Tree.ordered_nest (Notation.ordered_read (Text.trim e.2)) leaf'.path
      obtain ⟨hlater, hvalue⟩ := ih henv.tail (ht.merge hordered hopen)
      rw [layered_cons_some hpath]
      refine ⟨hlater, ?_⟩
      rw [hvalue, Tree.at?_merge hordered ht hopen,
        Tree.at?_nest hprefix (leaf_of_begins leaf hleaf leaf' hleaf'), told?_cons, hpath]
      by_cases heq : leaf'.path = leaf.path
      · have hnone : told? rest leaf.path = none := told?_eq_none fun e' he' =>
          (List.pairwise_cons.1 henv.once).1 e' he' leaf.path (heq ▸ hpath)
        rw [if_pos heq, if_pos (congrArg some heq), hnone, Option.merge_none_right]
      · rw [if_neg heq, if_neg fun h => heq (Option.some.inj h), Option.merge_none_right]

/-- A section is in what variables say just if one of them is for it. -/
theorem isSome_layered (henv : NamesLeaves environment) (group : String) {t : Tree}
    (ht : t.IsTable) : ((layered environment t).down? (.name group)).isSome =
      ((t.down? (.name group)).isSome || touches environment group) := by
  induction environment generalizing t with
  | nil => exact (Bool.or_false _).symm
  | cons e rest ih =>
    cases hpath : variablePath? e.1 with
    | none =>
      have htouches : touches (e :: rest) group = touches rest group := by simp [touches, hpath]
      rw [layered_cons_none hpath, htouches]
      exact ih henv.tail ht
    | some path =>
      obtain ⟨leaf', hleaf', rfl⟩ := henv.leaf e (List.mem_cons_self ..) path hpath
      obtain ⟨name, path, hcons⟩ : ∃ name path, leaf'.path = name :: path :=
        List.exists_cons_of_ne_nil (by simp [Leaf.path])
      have htable : (Tree.nest leaf'.path (Notation.read (Text.trim e.2))).IsTable :=
        isTable_nest (by simp [Leaf.path]) _
      have hordered := Tree.ordered_nest (Notation.ordered_read (Text.trim e.2)) leaf'.path
      have htouches : touches (e :: rest) group = (name == group || touches rest group) := by
        simp [touches, hpath, hcons]
      rw [layered_cons_some hpath, ih henv.tail (Tree.merge_isTable.2 htable),
        Tree.down?_merge hordered ht htable, htouches, hcons, Tree.down?_nest_cons]
      cases t.down? (.name group) <;> by_cases hname : name = group <;> simp [hname]

end ControlPlane.Settings
