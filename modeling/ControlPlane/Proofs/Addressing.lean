/-
Hostnames tell what they address. The segments before the suffix can be cut
apart at the dots, and how many there are tells which they are; so two queries
that come to one hostname in an application ask for the same instance of the
same version of the same module, whichever rule addresses them.
-/
import ControlPlane.Proofs.Hostname

namespace ControlPlane.HostnameQuery

/-- The names in the query have no dots, which separate segments. -/
structure Dotless (q : HostnameQuery) : Prop where
  module : '.' ∉ q.module.toList
  version : ∀ name, q.version.name = some name → '.' ∉ name.toList

/-! ## Segments -/

/-- The segments before the suffix, with the version that is addressed. -/
def front (q : HostnameQuery) (names : List String) (version : Option String) : List Segment :=
  q.index.toList.map .index ++ version.toList.map .version ++
    if names = [defaultModule] then [] else [.module q.module]

variable {t : Answers} {q q' : HostnameQuery} {names : List String} {suffix : String}
  {segments segments' : List Segment} {later later' : List Read}

/-- Whichever rule addresses it, a hostname has a version unless it is that of
a module, and the module unless that is left out. -/
theorem Addresses.segments_eq (h : Addresses t q names suffix (.ok segments) later) :
    q.module ∈ names ∧ ∃ version, segments = q.front names version ++ [.suffix suffix] ∧
      (∀ name, version = some name → q.version.name = some name) ∧
      (version = none → q.index = none ∧ names ≠ [defaultModule]) := by
  cases h with
  | @single version hmem hsingle hname =>
    exact ⟨hmem, some version, by simp [front, hsingle], by simp [hname], nofun⟩
  | @«instance» i version details count hmem hother hindex hname =>
    exact ⟨hmem, some version, by simp [front, hother, hindex], by simp [hname], nofun⟩
  | @explicit version hmem hother hindex hversion =>
    exact ⟨hmem, some version, by simp [front, hother, hindex],
      by simp [hversion, VersionSelector.name], nofun⟩
  | @current version versions hmem hother hindex hversion =>
    exact ⟨hmem, some version, by simp [front, hother, hindex],
      by simp [hversion, VersionSelector.name], nofun⟩
  | fallback hmem hother hindex =>
    exact ⟨hmem, none, by simp [front, hother, hindex], nofun, fun _ => ⟨hindex, hother⟩⟩

theorem segment_inj {i i' : UInt32} (h : segment i = segment i') : i = i' := by
  have hdigits := congrArg (fun s => Nat.ofDigitChars 10 s.toList 0) h
  simp only [segment, Decimal.text, Nat.toList_repr, Nat.ofDigitChars_ten_toDigits] at hdigits
  exact UInt32.toNat_inj.1 hdigits

theorem not_mem_segment (i : UInt32) : '.' ∉ (segment i).toList := by
  intro h
  rw [segment, Decimal.text, Nat.toList_repr] at h
  exact absurd (Nat.isDigit_of_mem_toDigits (by decide) (by decide) h) (by decide)

/-- With no version there is no instance, so the segments in front of a module
tell which of the two they are. -/
theorem optional_segments_inj {i i' : Option UInt32} {version version' : Option String}
    (hi : version = none → i = none) (hi' : version' = none → i' = none)
    (h : i.toList.map segment ++ version.toList = i'.toList.map segment ++ version'.toList) :
    i = i' ∧ version = version' := by
  -- A single segment is a version, even if it reads like an instance.
  cases version with
  | none =>
    obtain rfl := hi rfl
    cases version' with
    | none => exact ⟨(hi' rfl).symm, rfl⟩
    | some name' => simp at h
  | some name =>
    cases version' with
    | none => obtain rfl := hi' rfl; simp at h
    | some name' =>
      obtain ⟨hindex, rfl⟩ : i.toList.map segment = i'.toList.map segment ∧ name = name' := by
        simpa using List.append_inj' h rfl
      refine ⟨?_, rfl⟩
      rcases i with _ | i <;> rcases i' with _ | i'
      · rfl
      · simp at hindex
      · simp at hindex
      · exact congrArg some (segment_inj (by simpa using hindex))

/-! ## Joining -/

/-- Segments without dots are cut apart at the dots. -/
theorem splitOn_join {texts : List String} (hne : texts ≠ [])
    (h : ∀ text ∈ texts, '.' ∉ text.toList) :
    (join texts).toList.splitOn '.' = texts.map String.toList := by
  rw [join, String.toList_intercalate]
  exact List.splitOn_intercalate '.' (by simpa using h) (by simpa using hne)

theorem join_inj {texts texts' : List String} (hne : texts ≠ []) (hne' : texts' ≠ [])
    (h : ∀ text ∈ texts, '.' ∉ text.toList) (h' : ∀ text ∈ texts', '.' ∉ text.toList)
    (heq : join texts = join texts') : texts = texts' := by
  have hcut := congrArg (fun s => s.toList.splitOn '.') heq
  simp only [splitOn_join hne h, splitOn_join hne' h'] at hcut
  exact (List.map_inj_right fun _ _ => String.toList_inj.1).1 hcut

theorem joined_suffix {front : List Segment} (hne : front ≠ []) (suffix : String) :
    joined (front ++ [.suffix suffix]) = join (front.map Segment.text) ++ "." ++ suffix := by
  rw [joined, List.map_append, join, String.intercalate_append_of_ne_nil (by simpa using hne)
    (by simp)]
  simp [join, Segment.text]

theorem front_ne_nil {version : Option String}
    (h : version = none → q.index = none ∧ names ≠ [defaultModule]) :
    q.front names version ≠ [] := by
  cases version with
  | none => simp [front, h rfl]
  | some name => simp [front]

theorem front_texts (q : HostnameQuery) (names : List String) (version : Option String) :
    (q.front names version).map Segment.text = q.index.toList.map segment ++ version.toList ++
      if names = [defaultModule] then [] else [q.module] := by
  simp only [front, List.map_append, List.map_map]
  congr 1
  · simp [Function.comp_def, Segment.text]
  · split <;> rfl

/-- Where names have no dots, no segment before the suffix has one. -/
theorem Dotless.not_mem_front (hq : q.Dotless) {version : Option String}
    (h : ∀ name, version = some name → q.version.name = some name) :
    ∀ text ∈ (q.front names version).map Segment.text, '.' ∉ text.toList := by
  intro text hmem
  simp only [front_texts, List.mem_append, List.mem_map, Option.mem_toList] at hmem
  rcases hmem with (⟨i, -, rfl⟩ | hname) | hmodule
  · exact not_mem_segment i
  · exact hq.version text (h text hname)
  · split at hmodule
    · cases hmodule
    · obtain rfl := List.mem_singleton.1 hmodule
      exact hq.module

/-! ## One hostname, one address -/

theorem Addresses.unambiguous (hq : q.Dotless) (hq' : q'.Dotless)
    (h : Addresses t q names suffix (.ok segments) later)
    (h' : Addresses t q' names suffix (.ok segments') later')
    (heq : joined segments = joined segments') :
    q.module = q'.module ∧ q.index = q'.index ∧ segments = segments' := by
  obtain ⟨hmem, version, rfl, hname, hnone⟩ := h.segments_eq
  obtain ⟨hmem', version', rfl, hname', hnone'⟩ := h'.segments_eq
  have hne := front_ne_nil hnone
  have hne' := front_ne_nil hnone'
  -- The suffix is common, so the segments in front of it are joined alike.
  rw [joined_suffix hne, joined_suffix hne', String.append_left_inj, String.append_left_inj] at heq
  have htexts := join_inj (by simpa using hne) (by simpa using hne') (hq.not_mem_front hname)
    (hq'.not_mem_front hname') heq
  rw [front_texts, front_texts] at htexts
  -- Both fronts end in a module or neither does: that hangs on the names alone.
  obtain ⟨hoptional, hmodule⟩ := List.append_inj' htexts (by split <;> rfl)
  obtain ⟨hindex, rfl⟩ := optional_segments_inj (fun hv => (hnone hv).1) (fun hv => (hnone' hv).1)
    hoptional
  have hmodule : q.module = q'.module := by
    by_cases hsingle : names = [defaultModule]
    · subst hsingle
      rw [List.mem_singleton.1 hmem, List.mem_singleton.1 hmem']
    · simpa [hsingle] using hmodule
  exact ⟨hmodule, hindex, by simp only [front, hmodule, hindex]⟩

theorem Resolves.unambiguous {reads reads' : List Read} (hq : q.Dotless) (hq' : q'.Dotless)
    (h : Resolves t q (.ok segments) reads) (h' : Resolves t q' (.ok segments') reads')
    (heq : joined segments = joined segments') :
    q.module = q'.module ∧ q.index = q'.index ∧ segments = segments' := by
  cases h with
  | known hnames hsuffix h =>
    cases h' with
    | known hnames' hsuffix' h' =>
      cases hnames.symm.trans hnames'
      cases hsuffix.symm.trans hsuffix'
      exact h.unambiguous hq hq' h' heq

/-- **Addressing is unambiguous.** If two queries whose names have no dots come
to one hostname in applications that answer alike, they are of one module and
one instance, and the hostname is of the same segments for both. -/
theorem addressing_unambiguous {σ : Type} (source : Topology (StateM σ)) (s s' : σ)
    (hsame : source.answers s = source.answers s') (q q' : HostnameQuery) (hq : q.Dotless)
    (hq' : q'.Dotless) (host : String) (h : (q.resolution source s).1 = .ok host)
    (h' : (q'.resolution source s').1 = .ok host) :
    q.module = q'.module ∧ q.index = q'.index ∧ ∃ segments reads reads', host = joined segments ∧
      Resolves (source.answers s) q (.ok segments) reads ∧
      Resolves (source.answers s') q' (.ok segments) reads' := by
  obtain ⟨outcome, reads, hrun, hresolves⟩ := resolution_resolves source s q
  obtain ⟨outcome', reads', hrun', hresolves'⟩ := resolution_resolves source s' q'
  rw [hrun] at h
  rw [hrun'] at h'
  rcases outcome with _ | segments
  · cases h
  rcases outcome' with _ | segments'
  · cases h'
  obtain rfl : joined segments = host := Except.ok.inj h
  rw [← hsame] at hresolves' ⊢
  obtain ⟨hmodule, hindex, rfl⟩ :=
    hresolves.unambiguous hq hq' hresolves' (Except.ok.inj h').symm
  exact ⟨hmodule, hindex, segments, reads, reads', rfl, hresolves, hresolves'⟩

/-- A version that reads like an instance, once named and once the caller's. -/
theorem addressing_unambiguous_selectors :
    let source : Topology (StateM Unit) :=
      ⟨pure ["2", "api"], pure "demo.test", fun _ => pure ["2"], fun m v => pure ⟨m, v, .manual 3⟩⟩
    let q : HostnameQuery := ⟨"api", .explicit "2", none⟩
    let q' : HostnameQuery := ⟨"api", .current (some "2"), none⟩
    q.Dotless ∧ q'.Dotless ∧ (q.resolution source ()).1 = .ok "2.api.demo.test" ∧
      (q'.resolution source ()).1 = .ok "2.api.demo.test" ∧
      ∃ segments reads reads', "2.api.demo.test" = joined segments ∧
        Resolves (source.answers ()) q (.ok segments) reads ∧
        Resolves (source.answers ()) q' (.ok segments) reads' := by
  intro source q q'
  have hq : q.Dotless := ⟨by decide, fun name hname => by cases hname; decide⟩
  have hq' : q'.Dotless := ⟨by decide, fun name hname => by cases hname; decide⟩
  have h : (q.resolution source ()).1 = .ok "2.api.demo.test" := rfl
  have h' : (q'.resolution source ()).1 = .ok "2.api.demo.test" := rfl
  exact ⟨hq, hq', h, h',
    (addressing_unambiguous source () () rfl q q' hq hq' "2.api.demo.test" h h').2.2⟩

end ControlPlane.HostnameQuery
