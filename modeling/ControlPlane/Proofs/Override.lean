/-
Sources of settings by the single setting. With variables for single settings a
setting is what its variable says, or else the file, or else what it is from the
start, whatever is said of the others (`value_eq_decided`); only a section that the
file writes as a list is no more read when a variable is for one of its settings.
What is said where there is no setting is an error, unless something else that is
said takes its place.
-/
import ControlPlane.Proofs.Decimal
import ControlPlane.Proofs.Sources

namespace ControlPlane.Settings

variable {environment : List (String × String)} {leaf : Leaf}

/-! ## Both sources -/

/-- What a file says of a setting that variables do not tell. A section that it
writes as a list gives its settings by their positions; it is no more what it was
when a variable is for one of them. -/
def Leaf.inFile? (leaf : Leaf) (file : Tree) (environment : List (String × String)) : Option Tree :=
  file.at? (placeOf leaf.path) <|>
    if leaf.group?.any (touches environment) then none else leaf.position?.bind file.at?

/-- The value of a setting: that of its variable, or that of the file, or the one
it has from the start. -/
def Leaf.decided (leaf : Leaf) (file : Tree) (environment : List (String × String)) : Tree :=
  (told? environment leaf.path <|> leaf.inFile? file environment).getD (leaf.value {})

/-- What is decided where two sources say something, or one, or none. -/
theorem getD_merge_of_scalar {old new : Option Tree} {start : Tree}
    (h : ¬ ((Option.merge Tree.merge old new).getD start).IsTable) :
    (Option.merge Tree.merge old new).getD start = (new <|> old).getD start := by
  cases new with
  | none => rw [Option.merge_none_right]; rfl
  | some new =>
    cases old with
    | none => rfl
    | some old =>
      have hnew : ¬ new.IsTable := fun htable => h (Tree.merge_isTable.2 htable)
      exact Tree.merge_of_not_table fun htables => hnew htables.2

theorem value_not_table : ∀ leaf ∈ leaves, ∀ s, ¬ (leaf.value s).IsTable := by
  simp only [leaves, switch, List.forall_mem_cons]
  refine ⟨?_, ?_, ?_, ?_, ?_, ?_, ?_, ?_, ?_, ?_, List.forall_mem_nil _⟩ <;> rintro s ⟨entries, h⟩
  all_goals first | cases h | skip
  · cases hproject : s.projectId <;> simp [hproject, Tree.ofOptional] at h
  · cases htoken : s.admin.accessToken <;> simp [htoken, Tree.ofOptional] at h

variable {file : Tree}

theorem saidIn?_group {group : String} (hgroup : leaf.group? = some group) (t : Tree) :
    leaf.saidIn? t = (t.down? (.name group)).bind (·.under? leaf.name leaf.index) := by
  cases hdown : t.down? (.name group) <;>
    simp [Leaf.saidIn?, Leaf.position?, Leaf.path, placeOf, hgroup, Tree.at?, hdown, Tree.under?]

theorem placeOf_path_group {group : String} (hgroup : leaf.group? = some group) :
    placeOf leaf.path = [.name group, .name leaf.name] := by
  simp [Leaf.path, placeOf, hgroup]

/-- Where nothing stands in the way to a setting, its section is no list. -/
theorem position_of_open {t : Tree} (h : t.Open (placeOf leaf.path)) :
    leaf.position?.bind t.at? = none := by
  cases hgroup : leaf.group? with
  | none => simp [Leaf.position?, hgroup]
  | some group =>
    rw [placeOf_path_group hgroup] at h
    rw [Leaf.position?, hgroup, Option.map_some, Option.bind_some, Tree.at?_cons]
    cases hdown : t.down? (.name group) with
    | none => rfl
    | some t' =>
      obtain ⟨entries, rfl⟩ := (h.2 t' hdown).1
      rfl

/-- What stands in the way to a setting of a table is its section. -/
theorem exists_of_not_open {t : Tree} (htable : t.IsTable) (h : ¬ t.Open (placeOf leaf.path)) :
    ∃ group t', leaf.group? = some group ∧ t.down? (.name group) = some t' ∧ ¬ t'.IsTable := by
  cases hgroup : leaf.group? with
  | none =>
    refine absurd ?_ h
    simp [Leaf.path, placeOf, hgroup, Tree.Open, htable]
  | some group =>
    by_contra hnone
    refine h ?_
    rw [placeOf_path_group hgroup]
    refine ⟨htable, fun t' hdown => ⟨?_, fun _ _ => trivial⟩⟩
    by_contra hnot
    exact hnone ⟨group, t', rfl, hdown, hnot⟩

theorem down?_name_of_not_table {t : Tree} (h : ¬ t.IsTable) (name : String) :
    t.down? (.name name) = none := by
  cases t with
  | table entries => exact absurd ⟨entries, rfl⟩ h
  | _ => rfl

theorem open_nothing (leaf : Leaf) : Tree.nothing.Open (placeOf leaf.path) := by
  obtain ⟨name, path, hcons⟩ : ∃ name path, leaf.path = name :: path :=
    List.exists_cons_of_ne_nil (by simp [Leaf.path])
  rw [hcons]
  exact ⟨isTable_nothing, fun t hdown => by cases hdown⟩

theorem at?_nothing (leaf : Leaf) : Tree.nothing.at? (placeOf leaf.path) = none := by
  obtain ⟨name, path, hcons⟩ : ∃ name path, leaf.path = name :: path :=
    List.exists_cons_of_ne_nil (by simp [Leaf.path])
  rw [hcons]
  rfl

/-- What variables say of a setting, its own one says. -/
theorem at?_ofVariables (henv : NamesLeaves environment) (hleaf : leaf ∈ leaves) :
    (ofVariables environment).Open (placeOf leaf.path) ∧
      (ofVariables environment).at? (placeOf leaf.path) = told? environment leaf.path := by
  obtain ⟨hopen, hvalue⟩ := at?_layered henv hleaf (open_nothing leaf)
  rw [at?_nothing, Option.merge_none_left] at hvalue
  exact ⟨hopen, hvalue⟩

/-- Where a section of the file stands in the way to a setting, and so is written
as a list or not at all, it counts just if no variable is for it. -/
theorem saidIn?_of_not_open (henv : NamesLeaves environment) (hleaf : leaf ∈ leaves)
    (htable : file.IsTable) (h : ¬ file.Open (placeOf leaf.path)) :
    leaf.saidIn? (file.merge (ofVariables environment)) =
      (told? environment leaf.path <|> leaf.inFile? file environment) := by
  obtain ⟨group, t, hgroup, hfile, hnot⟩ := exists_of_not_open htable h
  obtain ⟨hopen, htold⟩ := at?_ofVariables henv hleaf
  have htouches := isSome_layered henv group isTable_nothing
  rw [← ofVariables_eq] at htouches
  have hvariables := isTable_ofVariables environment
  have hordered := ordered_ofVariables environment
  have hnone : file.at? (placeOf leaf.path) = none := by
    rw [placeOf_path_group hgroup, Tree.at?_cons, hfile, Option.bind_some, Tree.at?_cons,
      down?_name_of_not_table hnot]
    rfl
  rw [saidIn?_group hgroup, Tree.down?_merge hordered htable hvariables, hfile, Leaf.inFile?, hnone,
    hgroup, ← htold, placeOf_path_group hgroup, Tree.at?_cons]
  rw [placeOf_path_group hgroup] at hopen
  cases hdown : (ofVariables environment).down? (.name group) with
  | none =>
    have htouched : touches environment group = false := by
      rw [hdown] at htouches
      exact htouches.symm
    have hposition : leaf.position?.bind file.at? = t.down? (.item leaf.index) := by
      simp [Leaf.position?, hgroup, Tree.at?, hfile]
    rw [Option.any_some, htouched, hposition]
    simp [Tree.under?, down?_name_of_not_table hnot]
  | some t' =>
    have htouched : touches environment group = true := by
      rw [hdown] at htouches
      exact htouches.symm
    have hmerge : Tree.merge t t' = t' := Tree.merge_of_not_table fun htables => hnot htables.1
    rw [Option.any_some, htouched, Option.merge, hmerge, Option.bind_some,
      Tree.under?_of_isTable (hopen.2 t' hdown).1]
    simp [Tree.at?]

/-- A setting has the value that is decided on. -/
theorem value_eq_decided {s : Settings} (henv : NamesLeaves environment) (htable : file.IsTable)
    (hordered : file.Ordered)
    (htake : takeSection allSettings (file.merge (ofVariables environment)) {} = .ok s)
    (hleaf : leaf ∈ leaves) : leaf.value s = leaf.decided file environment := by
  have hvariables := ordered_ofVariables environment
  obtain ⟨hopen, htold⟩ := at?_ofVariables henv hleaf
  have hvalue := value_of_takeSection (hvariables.merge hordered)
    (Tree.merge_isTable.2 (isTable_ofVariables environment)) htake leaf hleaf
  by_cases hfile : file.Open (placeOf leaf.path)
  · have hmerged := Tree.at?_merge hvariables hfile hopen
    have hsaid : leaf.saidIn? (file.merge (ofVariables environment)) = Option.merge Tree.merge
        (file.at? (placeOf leaf.path)) (told? environment leaf.path) := by
      rw [Leaf.saidIn?, position_of_open (hfile.merge hvariables hopen), hmerged, htold]
      simp
    have hscalar := value_not_table leaf hleaf s
    rw [hvalue, hsaid] at hscalar
    rw [hvalue, hsaid, getD_merge_of_scalar hscalar, Leaf.decided, Leaf.inFile?,
      position_of_open hfile]
    simp
  · rw [hvalue, saidIn?_of_not_open henv hleaf htable hfile, Leaf.decided]

/-! ## Loading -/

theorem load_eq_ok {file : Option Bytes} {s : Settings} : load file environment = .ok s ↔
    ∃ tree s', fileTree? file = some tree ∧
      takeSection allSettings (tree.merge (ofVariables environment)) {} = .ok s' ∧
      applyFlag (environment.lookup backendVariable) s' = s := by
  unfold load
  split
  · next hnone =>
    have htree : fileTree? file = none := hnone
    simp [htree]
  · next tree hsome =>
    have htree : fileTree? file = some tree := hsome
    simp only [htree, Option.some.injEq, exists_and_left, exists_eq_left', ofSources]
    exact Fallible.map_eq_ok

/-- The flag in the variable for the switch changes nothing else. -/
theorem value_applyFlag (flag : Option String) (s : Settings) : ∀ leaf ∈ leaves,
    leaf.path ≠ switch.path → leaf.value (applyFlag flag s) = leaf.value s := by
  cases flag with
  | none => exact fun _ _ _ => rfl
  | some flag => simp [leaves, switch, applyFlag, Leaf.path]

theorem switch_applyFlag (flag : Option String) (s : Settings) :
    switch.value (applyFlag flag s) =
      flag.elim (switch.value s) fun flag => .bool (isTrue flag) := by
  cases flag with
  | none => rfl
  | some flag => simp [switch, applyFlag]

/-- A blank is no capital. -/
theorem toLower_of_isBlank {c : Char} (h : Text.isBlank c = true) : c.toLower = c := by
  have hcapital : ¬ (c.val ≥ 'A'.val ∧ c.val ≤ 'Z'.val) := by
    rintro ⟨hlow, hhigh⟩
    have hlow' : 65 ≤ c.toNat := hlow
    have hhigh' : c.toNat ≤ 90 := hhigh
    simp [Text.isBlank, Text.blankRanges] at h
    omega
  exact dif_neg hcapital

/-- A flag is up just if it is the word, in letters of either case, with blanks
around it. -/
theorem isTrue_iff (flag : String) : isTrue flag = true ↔
    ∃ core, Text.Padded core flag.toList ∧ core.map Char.toLower = "true".toList := by
  rw [Text.exists_padded_iff]
  · simp [isTrue, Text.lowerAscii, Text.trim, String.ext_iff]
  · intro core hcore
    refine ⟨fun hnil => by simp [hnil] at hcore, fun c hc => ?_⟩
    have hlower : c.toLower ∈ "true".toList := hcore ▸ List.mem_map_of_mem hc
    have hword : ∀ c ∈ "true".toList, Text.isBlank c = false := by
      simp [Text.isBlank, Text.blankRanges]
    cases hblank : Text.isBlank c with
    | false => rfl
    | true =>
      rw [toLower_of_isBlank hblank] at hlower
      exact hblank.symm.trans (hword c hlower)

/-! ## What is no setting -/

/-- The place of a name that is not that of a setting or a section. -/
structure Stray (place : Place) : Prop where
  named : ∃ front name, place = front ++ [.name name]
  unknown : ¬ Named place
  counted : ¬ PassedOver place

theorem load_eq_error_of_stray {file : Option Bytes} {place : Place} (hstray : Stray place)
    (hplace : ∀ tree, fileTree? file = some tree →
      ((tree.merge (ofVariables environment)).at? place).isSome) :
    ∃ e, load file environment = .error e := by
  cases hload : load file environment with
  | error e => exact ⟨e, rfl⟩
  | ok s =>
    obtain ⟨tree, s', htree, htake, -⟩ := load_eq_ok.1 hload
    have hsome := hplace tree htree
    obtain ⟨front, name, rfl⟩ := hstray.named
    rcases named_of_takeSection (Tree.merge_isTable.2 (isTable_ofVariables environment)) htake hsome
      with hnamed | hpassed
    · exact absurd hnamed hstray.unknown
    · exact absurd hpassed hstray.counted

/-- What is said stays said, if no later variable covers it. -/
theorem at?_layered_of_not_covers {after : List (String × String)} {place : Place}
    (hafter : ∀ e ∈ after, ∀ t, layer? e = some t → ¬ t.Covers place) {t : Tree}
    (h : (t.at? place).isSome) : ((layered after t).at? place).isSome := by
  refine List.foldlRecOn (motive := fun t => (t.at? place).isSome) _ Tree.merge h ?_
  intro t ht t' ht'
  obtain ⟨e, he, hlayer⟩ := List.mem_filterMap.1 ht'
  exact Tree.at?_merge_old (ordered_ofVariable? hlayer) (hafter e he t' hlayer) ht

theorem at?_ofVariables_of_layer {before after : List (String × String)} {e : String × String}
    {t : Tree} (ht : layer? e = some t) {place : Place} (hplace : (t.at? place).isSome)
    (hafter : ∀ e ∈ after, ∀ t, layer? e = some t → ¬ t.Covers place) :
    ((ofVariables (before ++ e :: after)).at? place).isSome := by
  have hlayered : ofVariables (before ++ e :: after) =
      layered after ((layered before .nothing).merge t) := by
    rw [ofVariables_eq, layered_append, layered.eq_1 (e :: after), List.filterMap_cons_some ht,
      List.foldl_cons, ← layered]
  rw [hlayered]
  exact at?_layered_of_not_covers hafter (Tree.at?_merge_new (ordered_ofVariable? ht) _ hplace)

/-- **Settings are overridden one by one, and no name is passed over.** -/
theorem settings_override (file : Option Bytes) (environment : List (String × String)) :
    (NamesLeaves environment → ∀ s, load file environment = .ok s →
      ∃ tree, fileTree? file = some tree ∧
        (∀ leaf ∈ leaves, leaf.path ≠ switch.path →
          leaf.value s = leaf.decided tree environment) ∧
        switch.value s = (environment.lookup backendVariable).elim
          (switch.decided tree environment) fun flag => .bool (isTrue flag)) ∧
    (∀ flag, isTrue flag = true ↔
      ∃ core, Text.Padded core flag.toList ∧ core.map Char.toLower = "true".toList) ∧
    (∀ tree, fileTree? file = some tree → ∀ place, Stray place → (tree.at? place).isSome →
      ¬ (ofVariables environment).Covers place → ∃ e, load file environment = .error e) ∧
    ∀ before e after, environment = before ++ e :: after → ∀ t, layer? e = some t →
      ∀ place, Stray place → (t.at? place).isSome →
      (∀ e' ∈ after, ∀ t', layer? e' = some t' → ¬ t'.Covers place) →
        ∃ e, load file environment = .error e := by
  refine ⟨fun henv s hload => ?_, isTrue_iff, fun tree htree place hstray hplace hcovers => ?_, ?_⟩
  · obtain ⟨tree, s', htree, htake, rfl⟩ := load_eq_ok.1 hload
    obtain ⟨htable, hordered⟩ := isTable_fileTree? htree
    have hdecided (leaf : Leaf) (hleaf : leaf ∈ leaves) :=
      value_eq_decided henv htable hordered htake hleaf
    refine ⟨tree, htree, fun leaf hleaf hne => ?_, ?_⟩
    · rw [value_applyFlag _ _ leaf hleaf hne, hdecided leaf hleaf]
    · rw [switch_applyFlag, hdecided switch (List.mem_cons_self ..)]
  · refine load_eq_error_of_stray hstray fun tree' htree' => ?_
    cases htree.symm.trans htree'
    exact Tree.at?_merge_old (ordered_ofVariables environment) hcovers hplace
  · rintro before e after rfl t ht place hstray hplace hafter
    refine load_eq_error_of_stray hstray fun tree _ => ?_
    exact Tree.at?_merge_new (ordered_ofVariables _) tree
      (at?_ofVariables_of_layer ht hplace hafter)

/-- A file and variables for three settings, one of them in both; and a name that
is misspelt, first in a file and then in a variable. -/
theorem settings_override_project :
    let file := some (Utf8.encode "project_id: shop\nlegacy:\n  endpoint: http://a\n")
    let environment := [("MODULES__LEGACY__RPC_TIMEOUT_MS", "1500"),
      ("modules__project_id", "cart"), ("MODULES_USE_ADMIN_API", " TRUE ")]
    (∃ s tree, load file environment = .ok s ∧ fileTree? file = some tree ∧
      (∀ leaf ∈ leaves, leaf.path ≠ switch.path →
        leaf.value s = leaf.decided tree environment) ∧
      switch.value s = .bool (isTrue " TRUE ")) ∧
    (∃ e, load (some (Utf8.encode "legacy:\n  endpont: http://a\n")) environment = .error e) ∧
    ∃ e, load file (environment ++ [("MODULES__LEGACY__ENDPONT", "http://a")]) = .error e := by
  intro file environment
  have henv : NamesLeaves environment := ⟨by decide +kernel, by decide +kernel⟩
  have hload : load file environment = .ok
      { useAdminApi := true, projectId := some "cart",
        legacy := { endpoint := "http://a", rpcTimeoutMs := 1500 } } := by decide +kernel
  have hstray : Stray [.name "legacy", .name "endpont"] :=
    { named := ⟨[.name "legacy"], "endpont", rfl⟩
      unknown := by unfold Named; decide +kernel
      counted := fun ⟨_, _, _, hplace, _⟩ => nomatch hplace }
  obtain ⟨hdecided, -, -, -⟩ := settings_override file environment
  obtain ⟨tree, htree, hvalues, hswitch⟩ := hdecided henv _ hload
  obtain ⟨-, -, hfile, -⟩ :=
    settings_override (some (Utf8.encode "legacy:\n  endpont: http://a\n")) environment
  obtain ⟨-, -, -, hvariable⟩ :=
    settings_override file (environment ++ [("MODULES__LEGACY__ENDPONT", "http://a")])
  refine ⟨⟨_, tree, hload, htree, hvalues, hswitch⟩, ?_, ?_⟩
  · have hplace : ((fileTree? (some (Utf8.encode "legacy:\n  endpont: http://a\n"))).bind
        (·.at? [.name "legacy", .name "endpont"])).isSome := by decide +kernel
    obtain ⟨_, hsome⟩ := Option.isSome_iff_exists.1 hplace
    obtain ⟨tree, htree, hplace⟩ := Option.bind_eq_some_iff.1 hsome
    exact hfile tree htree _ hstray (Option.isSome_of_eq_some hplace) (by decide +kernel)
  · exact hvariable environment _ [] rfl _ rfl _ hstray (by decide +kernel) nofun

/-- A section that is written as a list is lost as a whole when a variable is for
one of its settings, a value in the place of a section hides what is misspelt in
it, and a variable with an empty part in its name is for nothing. -/
theorem list_section_lost_and_stray_names_hidden :
    (load (some (Utf8.encode "legacy: [http://a, 7, 8]\n")) [] =
      .ok { legacy := { endpoint := "http://a", connectTimeoutMs := 7, rpcTimeoutMs := 8 } } ∧
    load (some (Utf8.encode "legacy: [http://a, 7, 8]\n"))
        [("MODULES__LEGACY__RPC_TIMEOUT_MS", "1500")] =
      .ok { legacy := { rpcTimeoutMs := 1500 } }) ∧
    load (some (Utf8.encode "legacy:\n  bogus: 1\n")) [] =
      .error (.rejected ["legacy", "bogus"] (.unknownName "bogus")) ∧
    load (some (Utf8.encode "legacy:\n  bogus: 1\n")) [("MODULES__LEGACY", "[]")] = .ok {} ∧
    load (some (Utf8.encode "legacy: [http://a, 7, 8, bogus: 1]\n")) [] =
      .ok { legacy := { endpoint := "http://a", connectTimeoutMs := 7, rpcTimeoutMs := 8 } } ∧
    load none [("MODULES__BOGUS__", "1")] = .ok {} := by
  decide +kernel

end ControlPlane.Settings
