/-
Settings that are texts, given by one variable or by one entry of a file. What stands
between quotes in a file is taken as it is. What a variable holds is first read as a
value of the notation for variables: it is taken as it is unless it means something
else there, and then the setting is another text or the settings are not loaded.
-/
import ControlPlane.Proofs.Document
import ControlPlane.Proofs.NotationReader
import ControlPlane.Proofs.Override
import ControlPlane.Proofs.Utf8

namespace ControlPlane.Settings

/-- The paths of the settings that are texts. -/
def textPaths : List (List String) :=
  [["project_id"], ["legacy", "endpoint"], ["admin", "base_url"], ["admin", "access_token"],
   ["admin", "user_agent_prefix"]]

/-- Settings are loaded in which the one is the text `s`, and every other is what it is
from the start. -/
def Leaf.Loaded (leaf : Leaf) (s : String) (result : Except LoadError Settings) : Prop :=
  ∃ settings, result = .ok settings ∧ ∀ other ∈ leaves,
    other.value settings = if leaf.path = other.path then .text s else other.value {}

variable {leaf : Leaf} {v : Tree}

/-! ## One value -/

/-- Every setting of a tree with one value is what it is from the start, but for the one. -/
theorem value_of_nest (hleaf : leaf ∈ leaves) (hv : v.Ordered) {s : Settings}
    (htake : takeSection allSettings (.nest leaf.path v) {} = .ok s) :
    ∀ other ∈ leaves, other.value s = if leaf.path = other.path then v else other.value {} := by
  intro other hother
  have hne : leaf.path ≠ [] := by simp [Leaf.path]
  have hopen : (Tree.nest leaf.path v).Open (placeOf other.path) :=
    Tree.nest_open (leaf_of_begins leaf hleaf other hother)
  have hsaid : other.saidIn? (.nest leaf.path v) =
      if leaf.path = other.path then some v else none := by
    rw [Leaf.saidIn?, position_of_open hopen, Tree.at?_nest (leaf_of_begins leaf hleaf other hother)
      (leaf_of_begins other hother leaf hleaf)]
    simp
  rw [value_of_takeSection (Tree.ordered_nest hv _) (isTable_nest hne v) htake other hother, hsaid]
  split <;> rfl

/-- A setting that is a text takes a text and, of what is no text, nothing but what says
that there is no value. -/
theorem takeSection_nest : ∀ leaf ∈ leaves, leaf.path ∈ textPaths →
    (∀ s, ∃ settings, takeSection allSettings (.nest leaf.path (.text s)) {} = .ok settings) ∧
    ∀ v : Tree, v ≠ .absent → (∀ s, v ≠ .text s) →
      takeSection allSettings (.nest leaf.path v) {} = .error (.rejected leaf.path .wrongType) := by
  simp only [leaves, switch, List.forall_mem_cons]
  refine ⟨?_, ?_, ?_, ?_, ?_, ?_, ?_, ?_, ?_, ?_, List.forall_mem_nil _⟩ <;> intro hpath
  all_goals first | (exact absurd hpath (by decide)) | skip
  all_goals
    refine ⟨fun s => ⟨_, rfl⟩, fun v habsent htext => ?_⟩
    cases v with
    | absent => exact absurd rfl habsent
    | text s => exact absurd rfl (htext s)
    | _ => rfl

/-- Where one source gives one value, it takes that value or is refused. -/
theorem loaded_iff (hleaf : leaf ∈ leaves) (hpath : leaf.path ∈ textPaths) (hv : v.Ordered)
    (habsent : v ≠ .absent) (s : String) :
    leaf.Loaded s (takeSection allSettings (.nest leaf.path v) {}) ↔ v = .text s := by
  obtain ⟨htake, -⟩ := takeSection_nest leaf hleaf hpath
  constructor
  · rintro ⟨settings, hsettings, hvalues⟩
    have hvalue := hvalues leaf hleaf
    rw [value_of_nest hleaf hv hsettings leaf hleaf, if_pos rfl, if_pos rfl] at hvalue
    exact hvalue
  · rintro rfl
    obtain ⟨settings, hsettings⟩ := htake s
    exact ⟨settings, hsettings, value_of_nest hleaf hv hsettings⟩

/-! ## One variable -/

/-- Where one source says nothing, the other counts. -/
theorem merge_nothing {path : List String} (h : path ≠ []) (v : Tree) :
    Tree.nothing.merge (.nest path v) = .nest path v ∧
      (Tree.nest path v).merge .nothing = .nest path v := by
  obtain ⟨name, rest, rfl⟩ := List.exists_cons_of_ne_nil h
  exact ⟨rfl, rfl⟩

theorem load_variable {var s : String} (hvar : variablePath? var = some leaf.path)
    (hs : Text.trim s = s) : load none [(var, s)] =
      takeSection allSettings (.nest leaf.path (Notation.read s)) {} := by
  have hne : leaf.path ≠ [] := by simp [Leaf.path]
  have hvariables : ofVariables [(var, s)] = .nest leaf.path (Notation.read s) := by
    have hfirst : variablePath? (var, s).1 = some leaf.path := hvar
    have hlast (t : Tree) : layered [] t = t := rfl
    rw [ofVariables_eq, layered_cons_some hfirst, hlast, hs]
    exact (merge_nothing hne _).1
  have hflag : [(var, s)].lookup backendVariable = none := by
    have hother : backendVariable ≠ var := by
      rintro rfl
      cases hvar.symm.trans (show variablePath? backendVariable = none by decide +kernel)
    exact List.lookup_eq_none_iff.2 (by simpa using hother)
  have hload : load none [(var, s)] = (ofSources .nothing [(var, s)]).map
      (applyFlag ([(var, s)].lookup backendVariable)) := rfl
  rw [hload, ofSources, hvariables, (merge_nothing hne _).1, hflag]
  cases takeSection allSettings (.nest leaf.path (Notation.read s)) {} <;> rfl

/-! ## One entry of a file -/

theorem word_of_path : ∀ leaf ∈ leaves, ∀ name ∈ leaf.path, Yaml.Word name.toList := by
  have hnames : ∀ leaf ∈ leaves, ∀ name ∈ leaf.path, name ∈ ["use_admin_api", "project_id",
      "legacy", "endpoint", "connect_timeout_ms", "rpc_timeout_ms", "admin", "base_url",
      "request_timeout_ms", "allow_insecure_http", "access_token", "user_agent_prefix"] := by
    decide
  intro leaf hleaf name hname
  have hmem := hnames leaf hleaf name hname
  simp only [List.mem_cons, List.not_mem_nil, or_false] at hmem
  rcases hmem with rfl | rfl | rfl | rfl | rfl | rfl | rfl | rfl | rfl | rfl | rfl | rfl <;>
    exact ⟨by simp, by simp [Yaml.IsLetter], by simp [Yaml.keyReach]⟩

theorem load_entry (hleaf : leaf ∈ leaves) {q s : String} (h : Yaml.IsQuotation q s) :
    load (some (Utf8.encode (entry leaf.path q))) [] =
      takeSection allSettings (.nest leaf.path (.text s)) {} := by
  have hwords := word_of_path leaf hleaf
  have htext : ofText? (entry leaf.path q) = some (.nest leaf.path (.text s)) := by
    unfold Leaf.path at hwords ⊢
    cases hgroup : leaf.group? with
    | none => exact ofText?_entry_single (hwords _ (by simp)) h
    | some group =>
      exact ofText?_entry_nested (hwords _ (by simp [hgroup])) (hwords _ (by simp)) h
  have hfile : ofFile? (Utf8.encode (entry leaf.path q)) = some (.nest leaf.path (.text s)) := by
    rw [ofFile?, Utf8.decode_encode]
    exact htext
  have hne : leaf.path ≠ [] := by simp [Leaf.path]
  have hnone : ofVariables [] = .nothing := rfl
  have hload : load (some (Utf8.encode (entry leaf.path q))) [] =
      (ofSources (.nest leaf.path (.text s)) []).map (applyFlag none) := by
    unfold load
    rw [Option.elim_some, hfile]
    rfl
  rw [hload, ofSources, hnone, (merge_nothing hne _).2]
  cases takeSection allSettings (.nest leaf.path (.text s)) {} <;> rfl

/-- **A text in quotes is taken as it is, and a text in a variable if it means nothing
else.** -/
theorem text_setting_verbatim (hleaf : leaf ∈ leaves) (hpath : leaf.path ∈ textPaths)
    {var s : String} (hvar : variablePath? var = some leaf.path) (hs : Text.trim s = s) :
    (leaf.Loaded s (load none [(var, s)]) ↔ ∀ t, Notation.Means s t → t = .text s) ∧
    (∀ t, Notation.Means s (.text t) → leaf.Loaded t (load none [(var, s)])) ∧
    (∀ t, Notation.Means s t → (∀ s', t ≠ .text s') →
      load none [(var, s)] = .error (.rejected leaf.path .wrongType)) ∧
    (∃ q, Yaml.IsQuotation q s) ∧
    ∀ q, Yaml.IsQuotation q s →
      leaf.Loaded s (load (some (Utf8.encode (entry leaf.path q))) []) := by
  have hloaded (t : String) :=
    loaded_iff hleaf hpath (Notation.ordered_read s) (Notation.read_ne_absent s) t
  rw [load_variable hvar hs]
  refine ⟨(hloaded s).trans Notation.read_eq_text_iff, fun t ht => ?_, fun t ht htext => ?_,
    Yaml.exists_quotation s, fun q hq => ?_⟩
  · exact (hloaded t).2 (Notation.read_of_means ht)
  · rw [Notation.read_of_means ht]
    exact (takeSection_nest leaf hleaf hpath).2 t ht.ne_absent htext
  · rw [load_entry hleaf hq]
    exact (loaded_iff hleaf hpath (.text s) nofun s).2 rfl

/-- A name for a project, taken from a variable; one in quotes, which are lost; and one
of digits, which is refused there and taken in quotes from a file. -/
theorem text_setting_verbatim_project :
    let project : Leaf :=
      { name := "project_id", index := 1, value := fun s => .ofOptional s.projectId }
    project.Loaded "shop-1" (load none [("MODULES__PROJECT_ID", "shop-1")]) ∧
    project.Loaded "shop" (load none [("MODULES__PROJECT_ID", "\"shop\"")]) ∧
    load none [("MODULES__PROJECT_ID", "123")] = .error (.rejected ["project_id"] .wrongType) ∧
    project.Loaded "123" (load (some (Utf8.encode "project_id: '123'\n")) []) := by
  intro project
  have hleaf : project ∈ leaves := List.mem_cons_of_mem _ (List.mem_cons_self ..)
  have hpath : project.path ∈ textPaths := List.mem_cons_self ..
  have hvar : variablePath? "MODULES__PROJECT_ID" = some project.path := by decide +kernel
  have hplain : Notation.read "shop-1" = .text "shop-1" := rfl
  have hquoted : Notation.Means "\"shop\"" (.text "shop") := Notation.readValue?_iff_means.1 rfl
  have hdigits : Notation.Means "123" (.int 123) := Notation.readValue?_iff_means.1 rfl
  have hdigit (c : Char) (h : c ∈ ['1', '2', '3']) : Yaml.OfLine c ∧ c ≠ '\'' ∧ c ≠ '\\' := by
    simp only [List.mem_cons, List.not_mem_nil, or_false] at h
    rcases h with rfl | rfl | rfl <;>
      exact ⟨Yaml.ofLine_of_ascii (by decide) (by decide), by decide, by decide⟩
  have hquotation : Yaml.IsQuotation "'123'" "123" :=
    ⟨'\'', "123".toList, .inr rfl, Yaml.quoted_self hdigit, rfl⟩
  refine ⟨?_, ?_, ?_, ?_⟩
  · obtain ⟨htaken, -⟩ := text_setting_verbatim hleaf hpath hvar (s := "shop-1") (by decide +kernel)
    exact htaken.2 (Notation.read_eq_text_iff.1 hplain)
  · obtain ⟨-, hother, -⟩ :=
      text_setting_verbatim hleaf hpath hvar (s := "\"shop\"") (by decide +kernel)
    exact hother "shop" hquoted
  · obtain ⟨-, -, hrefused, -⟩ :=
      text_setting_verbatim hleaf hpath hvar (s := "123") (by decide +kernel)
    exact hrefused (.int 123) hdigits nofun
  · obtain ⟨-, -, -, -, hfile⟩ :=
      text_setting_verbatim hleaf hpath hvar (s := "123") (by decide +kernel)
    exact hfile "'123'" hquotation

end ControlPlane.Settings
