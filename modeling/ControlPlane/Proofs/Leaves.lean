/-
The single settings, in sections and outside them. Each is what a tree says of it
at its path, or by its position where its section is a list, or else what it was
before (`value_of_takeSection`): a section minds its own settings, and the whole
minds its sections. No tree that settings are made of has a name for anything
else, but in items beyond the settings of a section (`named_of_takeSection`).
-/
import ControlPlane.Proofs.Sections
import ControlPlane.Settings.Source

namespace ControlPlane.Settings

/-! ## The single settings -/

/-- A single setting: the section it is in, if it is in one, its name, its
position in that section, and the value it has. -/
structure Leaf where
  group? : Option String := none
  name : String
  index : Nat
  value : Settings → Tree

/-- The path of a setting in a source. -/
def Leaf.path (leaf : Leaf) : List String := leaf.group?.toList ++ [leaf.name]

/-- Where a source has a setting whose section it writes as a list. -/
def Leaf.position? (leaf : Leaf) : Option Place :=
  leaf.group?.map fun group => [.name group, .item leaf.index]

/-- The setting that has a variable of its own. -/
def switch : Leaf := { name := "use_admin_api", index := 0, value := fun s => .bool s.useAdminApi }

def leaves : List Leaf :=
  [switch,
   { name := "project_id", index := 1, value := fun s => .ofOptional s.projectId },
   ⟨some "legacy", "endpoint", 0, fun s => .text s.legacy.endpoint⟩,
   ⟨some "legacy", "connect_timeout_ms", 1, fun s => .int s.legacy.connectTimeoutMs⟩,
   ⟨some "legacy", "rpc_timeout_ms", 2, fun s => .int s.legacy.rpcTimeoutMs⟩,
   ⟨some "admin", "base_url", 0, fun s => .text s.admin.baseUrl⟩,
   ⟨some "admin", "request_timeout_ms", 1, fun s => .int s.admin.requestTimeoutMs⟩,
   ⟨some "admin", "allow_insecure_http", 2, fun s => .bool s.admin.allowInsecureHttp⟩,
   ⟨some "admin", "access_token", 3, fun s => .ofOptional s.admin.accessToken⟩,
   ⟨some "admin", "user_agent_prefix", 4, fun s => .text s.admin.userAgentPrefix⟩]

/-- What a tree says of a setting. -/
def Leaf.saidIn? (leaf : Leaf) (t : Tree) : Option Tree :=
  t.at? (placeOf leaf.path) <|> leaf.position?.bind t.at?

variable {σ : Type}

/-- To take such a setting does not change what is seen. -/
def Setting.Spares {β : Type} (see : σ → β) (setting : Setting σ) : Prop :=
  ∀ ⦃t s s'⦄, setting.take t s = .ok s' → see s' = see s

theorem Setting.Spares.of {α β : Type} {see : σ → β} {name : String}
    {read : Tree → Except LoadError α} {set : α → σ → σ} (h : ∀ a s, see (set a s) = see s) :
    (Setting.of name read set).Spares see := by
  intro t s s' htake
  obtain ⟨a, -, rfl⟩ := Setting.of_take_eq_ok.1 htake
  exact h a s

theorem Setting.Spares.group {τ β : Type} {see : σ → β} {name : String}
    {settings : List (Setting τ)} {get : σ → τ} {set : τ → σ → σ}
    (h : ∀ a s, see (set a s) = see s) :
    (Setting.group name settings get set).Spares see := by
  intro t s s' htake
  obtain ⟨a, -, rfl⟩ := Setting.group_take_eq_ok.1 htake
  exact h a s

/-- What is seen of a setting is the value that it has taken. -/
abbrev Taken (t _ v : Tree) : Prop := v = t

theorem Setting.Minds.of {α : Type} {settings : List (Setting σ)} {index : Nat} {name : String}
    {read : Tree → Except LoadError α} {set : α → σ → σ} {see : σ → Tree}
    (hnames : (settings.map (·.name)).Nodup) (h : settings[index]? = some (.of name read set))
    (hread : ∀ t a s, read t = .ok a → see (set a s) = t)
    (hother : ∀ other ∈ settings, other.name ≠ name → other.Spares see) :
    Setting.Minds settings (.of name read set) index see Taken where
  names := hnames
  position := h
  self htake := by
    obtain ⟨a, ha, rfl⟩ := Setting.of_take_eq_ok.1 htake
    exact hread _ a _ ha
  other hmem hne htake := hother _ hmem hne htake

/-- A setting is seen in what a section makes of itself. -/
def Leaf.Minded (leaf : Leaf) (settings : List (Setting σ)) (get : Settings → σ) : Prop :=
  ∃ setting see, setting.name = leaf.name ∧
    Setting.Minds settings setting leaf.index see Taken ∧ ∀ s, leaf.value s = see (get s)

theorem legacy_minded : ∀ leaf ∈ leaves, leaf.group? = some "legacy" →
    leaf.Minded legacySettings Settings.legacy := by
  have hnames : (legacySettings.map (·.name)).Nodup := by decide
  simp only [leaves, List.forall_mem_cons]
  refine ⟨nofun, nofun,
    fun _ => ⟨_, fun s => .text s.endpoint, rfl, .of hnames rfl
      (fun _ _ _ h => (text_eq_ok.1 h).symm) ?_, fun _ => rfl⟩,
    fun _ => ⟨_, fun s => .int s.connectTimeoutMs, rfl, .of hnames rfl
      (fun _ _ _ h => (count_eq_ok.1 h).1.symm) ?_, fun _ => rfl⟩,
    fun _ => ⟨_, fun s => .int s.rpcTimeoutMs, rfl, .of hnames rfl
      (fun _ _ _ h => (count_eq_ok.1 h).1.symm) ?_, fun _ => rfl⟩,
    nofun, nofun, nofun, nofun, nofun, nofun⟩
  all_goals
    simp only [legacySettings, List.forall_mem_cons]
    refine ⟨?_, ?_, ?_, nofun⟩ <;>
      first | exact fun hne => absurd rfl hne | exact fun _ => .of fun _ _ => rfl

theorem admin_minded : ∀ leaf ∈ leaves, leaf.group? = some "admin" →
    leaf.Minded adminSettings Settings.admin := by
  have hnames : (adminSettings.map (·.name)).Nodup := by decide
  simp only [leaves, List.forall_mem_cons]
  refine ⟨nofun, nofun, nofun, nofun, nofun,
    fun _ => ⟨_, fun s => .text s.baseUrl, rfl, .of hnames rfl
      (fun _ _ _ h => (text_eq_ok.1 h).symm) ?_, fun _ => rfl⟩,
    fun _ => ⟨_, fun s => .int s.requestTimeoutMs, rfl, .of hnames rfl
      (fun _ _ _ h => (count_eq_ok.1 h).1.symm) ?_, fun _ => rfl⟩,
    fun _ => ⟨_, fun s => .bool s.allowInsecureHttp, rfl, .of hnames rfl
      (fun _ _ _ h => (bool_eq_ok.1 h).symm) ?_, fun _ => rfl⟩,
    fun _ => ⟨_, fun s => .ofOptional s.accessToken, rfl, .of hnames rfl
      (fun _ _ _ h => (optionalText_eq_ok.1 h).symm) ?_, fun _ => rfl⟩,
    fun _ => ⟨_, fun s => .text s.userAgentPrefix, rfl, .of hnames rfl
      (fun _ _ _ h => (text_eq_ok.1 h).symm) ?_, fun _ => rfl⟩, nofun⟩
  all_goals
    simp only [adminSettings, List.forall_mem_cons]
    refine ⟨?_, ?_, ?_, ?_, ?_, nofun⟩ <;>
      first | exact fun hne => absurd rfl hne | exact fun _ => .of fun _ _ => rfl

theorem allSettings_names : (allSettings.map (·.name)).Nodup := by decide

theorem own_minded : ∀ leaf ∈ leaves, leaf.group? = none → leaf.Minded allSettings id := by
  simp only [leaves, switch, List.forall_mem_cons]
  refine ⟨fun _ => ⟨_, fun s => .bool s.useAdminApi, rfl, .of allSettings_names rfl
      (fun _ _ _ h => (bool_eq_ok.1 h).symm) ?_, fun _ => rfl⟩,
    fun _ => ⟨_, fun s => .ofOptional s.projectId, rfl, .of allSettings_names rfl
      (fun _ _ _ h => (optionalText_eq_ok.1 h).symm) ?_, fun _ => rfl⟩,
    nofun, nofun, nofun, nofun, nofun, nofun, nofun, nofun, nofun⟩
  all_goals
    simp only [allSettings, List.forall_mem_cons]
    refine ⟨?_, ?_, ?_, ?_, nofun⟩ <;>
      first
      | exact fun hne => absurd rfl hne
      | exact fun _ => .of fun _ _ => rfl
      | exact fun _ => .group fun _ _ => rfl

/-- What is seen of a section is what it makes of its settings. -/
theorem group_minds {group : String} {index : Nat} {settings : List (Setting σ)}
    {get : Settings → σ} {set : σ → Settings → Settings}
    (hposition : allSettings[index]? = some (.group group settings get set))
    (hset : ∀ a s, get (set a s) = a)
    (hother : ∀ other ∈ allSettings, other.name ≠ group → other.Spares get) :
    Setting.Minds allSettings (.group group settings get set) index get
      fun t a b => takeSection settings t a = .ok b where
  names := allSettings_names
  position := hposition
  self htake := by
    obtain ⟨a, ha, rfl⟩ := Setting.group_take_eq_ok.1 htake
    rw [hset]
    exact ha
  other hmem hne htake := hother _ hmem hne htake

theorem legacy_group : ∃ index set, Setting.Minds allSettings
    (.group "legacy" legacySettings Settings.legacy set) index Settings.legacy
      fun t a b => takeSection legacySettings t a = .ok b := by
  refine ⟨2, _, group_minds rfl (fun _ _ => rfl) ?_⟩
  simp only [allSettings, List.forall_mem_cons]
  exact ⟨fun _ => .of fun _ _ => rfl, fun _ => .of fun _ _ => rfl, fun hne => absurd rfl hne,
    fun _ => .group fun _ _ => rfl, nofun⟩

theorem admin_group : ∃ index set, Setting.Minds allSettings
    (.group "admin" adminSettings Settings.admin set) index Settings.admin
      fun t a b => takeSection adminSettings t a = .ok b := by
  refine ⟨3, _, group_minds rfl (fun _ _ => rfl) ?_⟩
  simp only [allSettings, List.forall_mem_cons]
  exact ⟨fun _ => .of fun _ _ => rfl, fun _ => .of fun _ _ => rfl, fun _ => .group fun _ _ => rfl,
    fun hne => absurd rfl hne, nofun⟩

theorem Tree.under?_of_isTable {t : Tree} (h : t.IsTable) (name : String) (index : Nat) :
    t.under? name index = t.down? (.name name) := by
  obtain ⟨entries, rfl⟩ := h
  simp [Tree.under?, Tree.down?]

theorem becomes_taken {said : Option Tree} {b b' : Tree} :
    Becomes Taken said b b' ↔ b' = said.getD b := by
  cases said <;> rfl

section Taken

variable {t : Tree} {start s : Settings}

theorem value_of_own {leaf : Leaf} (hminded : leaf.Minded allSettings id)
    (hgroup : leaf.group? = none) (ht : t.Ordered) (htable : t.IsTable)
    (htake : takeSection allSettings t start = .ok s) :
    leaf.value s = (leaf.saidIn? t).getD (leaf.value start) := by
  obtain ⟨setting, see, hname, hminds, hvalue⟩ := hminded
  have hsaid : leaf.saidIn? t = t.under? setting.name leaf.index := by
    rw [Tree.under?_of_isTable htable, hname]
    simp [Leaf.saidIn?, Leaf.position?, Leaf.path, placeOf, hgroup, Tree.at?]
  rw [hvalue, hvalue, hsaid]
  exact becomes_taken.1 (hminds.takeSection ht htake)

theorem value_of_group {group : String} {settings : List (Setting σ)} {get : Settings → σ}
    (h : ∃ index set, Setting.Minds allSettings (.group group settings get set) index get
      fun t a b => takeSection settings t a = .ok b)
    {leaf : Leaf} (hminded : leaf.Minded settings get) (hgroup : leaf.group? = some group)
    (ht : t.Ordered) (htable : t.IsTable) (htake : takeSection allSettings t start = .ok s) :
    leaf.value s = (leaf.saidIn? t).getD (leaf.value start) := by
  obtain ⟨index, set, hsection⟩ := h
  obtain ⟨setting, see, hname, hminds, hvalue⟩ := hminded
  have hbecomes := hsection.takeSection ht htake
  rw [Tree.under?_of_isTable htable] at hbecomes
  have hsaid : leaf.saidIn? t =
      (t.down? (.name group)).bind (·.under? setting.name leaf.index) := by
    rw [hname]
    cases hdown : t.down? (.name group) <;>
      simp [Leaf.saidIn?, Leaf.position?, Leaf.path, placeOf, hgroup, Tree.at?, hdown, Tree.under?]
  rw [hvalue, hvalue, hsaid]
  change Becomes _ (t.down? (.name group)) _ _ at hbecomes
  cases hdown : t.down? (.name group) with
  | none =>
    rw [hdown] at hbecomes
    exact congrArg see hbecomes
  | some t' =>
    rw [hdown] at hbecomes
    exact becomes_taken.1 (hminds.takeSection (ht.of_down? hdown) hbecomes)

/-- Each single setting becomes what is said of it, if anything is. -/
theorem value_of_takeSection (ht : t.Ordered) (htable : t.IsTable)
    (htake : takeSection allSettings t start = .ok s) :
    ∀ leaf ∈ leaves, leaf.value s = (leaf.saidIn? t).getD (leaf.value start) := by
  intro leaf hleaf
  have hgroups : ∀ leaf ∈ leaves, leaf.group? = none ∨ leaf.group? = some "legacy" ∨
      leaf.group? = some "admin" := by simp [leaves, switch]
  rcases hgroups leaf hleaf with hgroup | hgroup | hgroup
  · exact value_of_own (own_minded leaf hleaf hgroup) hgroup ht htable htake
  · exact value_of_group legacy_group (legacy_minded leaf hleaf hgroup) hgroup ht htable htake
  · exact value_of_group admin_group (admin_minded leaf hleaf hgroup) hgroup ht htable htake

end Taken

/-! ## Where there is no setting -/

/-- The place of a setting or of a section. -/
def Named (place : Place) : Prop :=
  ∃ leaf ∈ leaves, place = placeOf leaf.path ∨ leaf.group?.map (placeOf [·]) = some place

/-- A place in an item of a section that has more items than settings. -/
def PassedOver (place : Place) : Prop :=
  ∃ group index rest, place = .name group :: .item index :: rest ∧
    (∃ leaf ∈ leaves, leaf.group? = some group) ∧
    ∀ leaf ∈ leaves, leaf.group? = some group → leaf.index < index

/-- What a single setting takes has nothing below it. -/
theorem Setting.admits_of {α : Type} {name : String} {read : Tree → Except LoadError α}
    {set : α → σ → σ} (h : ∀ t a, read t = .ok a → ∀ step, t.down? step = none) :
    (Setting.of name read set).Admits (· = []) := by
  intro t s s' htake place hplace
  obtain ⟨a, ha, -⟩ := Setting.of_take_eq_ok.1 htake
  cases place with
  | nil => rfl
  | cons step place =>
    rw [Tree.at?_cons, h t a ha step] at hplace
    cases hplace

theorem admits_bool {name : String} {set : Bool → σ → σ} :
    (Setting.of name bool set).Admits (· = []) :=
  Setting.admits_of fun _ _ h _ => by rw [bool_eq_ok.1 h]; rfl

theorem admits_text {name : String} {set : String → σ → σ} :
    (Setting.of name text set).Admits (· = []) :=
  Setting.admits_of fun _ _ h _ => by rw [text_eq_ok.1 h]; rfl

theorem admits_count {name : String} {set : Nat → σ → σ} :
    (Setting.of name count set).Admits (· = []) :=
  Setting.admits_of fun _ _ h _ => by rw [(count_eq_ok.1 h).1]; rfl

theorem admits_optionalText {name : String} {set : Option String → σ → σ} :
    (Setting.of name optionalText set).Admits (· = []) :=
  Setting.admits_of fun _ a h _ => by rw [optionalText_eq_ok.1 h]; cases a <;> rfl

/-- The places of a section of single settings. -/
abbrev Flat (settings : List (Setting σ)) : Place → Prop :=
  Located settings fun _ place => place = []

theorem legacy_flat {t : Tree} {s s' : LegacySettings}
    (htake : takeSection legacySettings t s = .ok s') {place : Place}
    (hplace : (t.at? place).isSome) : Flat legacySettings place := by
  refine located_of_takeSection (by decide) ?_ htake hplace
  simp only [legacySettings, List.forall_mem_cons]
  exact ⟨admits_text, admits_count, admits_count, nofun⟩

theorem admin_flat {t : Tree} {s s' : AdminSettings}
    (htake : takeSection adminSettings t s = .ok s') {place : Place}
    (hplace : (t.at? place).isSome) : Flat adminSettings place := by
  refine located_of_takeSection (by decide) ?_ htake hplace
  simp only [adminSettings, List.forall_mem_cons]
  exact ⟨admits_text, admits_count, admits_bool, admits_optionalText, admits_text, nofun⟩

/-- The places that a setting or section of the whole can have below it. -/
def Below (setting : Setting Settings) (place : Place) : Prop :=
  place = [] ∨ setting.name = "legacy" ∧ Flat legacySettings place ∨
    setting.name = "admin" ∧ Flat adminSettings place

theorem located_of_take {t : Tree} {s s' : Settings} (htake : takeSection allSettings t s = .ok s')
    {place : Place} (hplace : (t.at? place).isSome) : Located allSettings Below place := by
  refine located_of_takeSection allSettings_names ?_ htake hplace
  simp only [allSettings, List.forall_mem_cons]
  refine ⟨fun _ _ _ h _ hp => .inl (admits_bool h hp),
    fun _ _ _ h _ hp => .inl (admits_optionalText h hp), fun _ _ _ h _ hp => .inr (.inl ⟨rfl, ?_⟩),
    fun _ _ _ h _ hp => .inr (.inr ⟨rfl, ?_⟩), nofun⟩
  · obtain ⟨a, ha, -⟩ := Setting.group_take_eq_ok.1 h
    exact legacy_flat ha hp
  · obtain ⟨a, ha, -⟩ := Setting.group_take_eq_ok.1 h
    exact admin_flat ha hp

theorem flat_cases {group : String} {settings : List (Setting σ)}
    (hgroup : ∃ leaf ∈ leaves, leaf.group? = some group)
    (hnames : ∀ setting ∈ settings, ∃ leaf ∈ leaves, leaf.path = [group, setting.name])
    (hlength : ∀ leaf ∈ leaves, leaf.group? = some group → leaf.index < settings.length)
    {place : Place} (h : Flat settings place) {front : Place} {name : String}
    (hend : Step.name group :: place = front ++ [.name name]) :
    Named (.name group :: place) ∨ PassedOver (.name group :: place) := by
  cases h with
  | here =>
    obtain ⟨leaf, hleaf, hgroup⟩ := hgroup
    exact .inl ⟨leaf, hleaf, .inr (by rw [hgroup]; rfl)⟩
  | entry hmem hp =>
    subst hp
    obtain ⟨leaf, hleaf, hpath⟩ := hnames _ hmem
    exact .inl ⟨leaf, hleaf, .inl (by rw [hpath]; rfl)⟩
  | item _ hp =>
    subst hp
    have hlast := congrArg List.getLast? hend
    simp at hlast
  | beyond hindex =>
    exact .inr ⟨group, _, _, rfl, hgroup,
      fun leaf hleaf h => Nat.lt_of_lt_of_le (hlength leaf hleaf h) hindex⟩

/-- **Nothing is said where there is no setting**: whatever settings are made of
has names just for settings and sections, and in items too many. -/
theorem named_of_takeSection {t : Tree} {s s' : Settings} (htable : t.IsTable)
    (htake : takeSection allSettings t s = .ok s') {front : Place} {name : String}
    (hplace : (t.at? (front ++ [.name name])).isSome) :
    Named (front ++ [.name name]) ∨ PassedOver (front ++ [.name name]) := by
  have hlocated := located_of_take htake hplace
  obtain ⟨entries, rfl⟩ := htable
  generalize hend : front ++ [.name name] = place at *
  cases hlocated with
  | here => simp at hend
  | @entry setting place hmem hbelow =>
    rcases hbelow with rfl | ⟨hname, hflat⟩ | ⟨hname, hflat⟩
    · have hnamed : ∀ setting ∈ allSettings, Named [.name setting.name] := by
        unfold Named
        decide
      exact .inl (hnamed setting hmem)
    · rw [hname] at hend ⊢
      exact flat_cases (by decide) (by decide) (by decide) hflat hend.symm
    · rw [hname] at hend ⊢
      exact flat_cases (by decide) (by decide) (by decide) hflat hend.symm
  -- At the root there is a table, so no step leads to an item.
  | item => cases hplace
  | beyond => cases hplace

end ControlPlane.Settings
