/-
Where requests of the admin API are sent. The root that settings name is put in
front of a resource's path as text, and the whole is read as a URI. Under a
root that is a host and a path the target of a request is the root's path with
the resource's path behind it; a query or a fragment of the root swallows what
is put behind it.
-/
import ControlPlane.Proofs.Fallible
import ControlPlane.Proofs.Resource
import Mathlib.Data.List.TakeWhile

namespace ControlPlane

/-- What `trimEnd` takes off is a run of `c`, and none is left at the end. -/
theorem Text.trimEnd_spec (c : Char) (s : String) : (trimEnd c s).toList.getLast? ≠ some c ∧
    ∃ count, s = trimEnd c s ++ String.ofList (List.replicate count c) := by
  have hsplit := List.takeWhile_append_dropWhile (p := (· == c)) (l := s.toList.reverse)
  have hrun : s.toList.reverse.takeWhile (· == c) =
      List.replicate (s.toList.reverse.takeWhile (· == c)).length c :=
    List.eq_replicate_iff.2 ⟨rfl, fun d hd => by simpa using List.mem_takeWhile_imp hd⟩
  refine ⟨fun h => ?_, (s.toList.reverse.takeWhile (· == c)).length, ?_⟩
  · rw [trimEnd, String.toList_ofList, List.getLast?_reverse] at h
    have hstop := List.head?_dropWhile_not (· == c) s.toList.reverse
    simp [h] at hstop
  · rw [← String.toList_inj, String.toList_append, trimEnd, String.toList_ofList,
      String.toList_ofList, ← List.reverse_inj, List.reverse_append, List.reverse_replicate,
      List.reverse_reverse, ← hrun, hsplit]

namespace Uri

/-! ## A URI with something put behind it -/

variable {α : Type} {cs rest : List Char}

theorem takeWhile_append_stop (p : α → Bool) {x : α} (hx : p x = false) (l r : List α) :
    (l ++ x :: r).takeWhile p = l.takeWhile p := by
  induction l with
  | nil => simp [hx]
  | cons a l ih => by_cases ha : p a = true <;> simp [ha, ih]

theorem dropWhile_append_stop (p : α → Bool) {x : α} (hx : p x = false) (l r : List α) :
    (l ++ x :: r).dropWhile p = l.dropWhile p ++ x :: r := by
  induction l with
  | nil => simp [hx]
  | cons a l ih => by_cases ha : p a = true <;> simp [ha, ih]

/-! ### Scheme -/

theorem dropFront?_self (front rest : List Char) :
    dropFront? front (front ++ rest) = some rest := by
  induction front with
  | nil => rfl
  | cons f front ih => simpa [dropFront?] using ih

/-- What is taken off the front is the front, capitals and small letters aside. -/
theorem dropFront?_eq_some {front : List Char} (h : dropFront? front cs = some rest) :
    ∃ begun, cs = begun ++ rest ∧ begun.map Char.toLower = front.map Char.toLower := by
  induction front generalizing cs with
  | nil => exact ⟨[], by simpa [dropFront?] using h, rfl⟩
  | cons f front ih =>
    cases cs with
    | nil => simp [dropFront?] at h
    | cons c cs =>
      simp only [dropFront?] at h
      split at h
      · next hc =>
        obtain ⟨begun, rfl, hbegun⟩ := ih h
        exact ⟨c :: begun, rfl, by simp [hbegun, hc]⟩
      · cases h

theorem dropFront?_append {front : List Char} (h : dropFront? front cs = some rest)
    (more : List Char) : dropFront? front (cs ++ more) = some (rest ++ more) := by
  induction front generalizing cs with
  | nil => simpa [dropFront?] using h
  | cons f front ih =>
    cases cs with
    | nil => simp [dropFront?] at h
    | cons c cs =>
      simp only [dropFront?, List.cons_append] at h ⊢
      split at h
      · next hc => rw [if_pos hc, ih h]
      · cases h

/-- A front that is not there is not made up by what comes after as many
characters. -/
theorem dropFront?_append_eq_none {front : List Char} (h : dropFront? front cs = none)
    (hlength : front.length ≤ cs.length) (more : List Char) :
    dropFront? front (cs ++ more) = none := by
  induction front generalizing cs with
  | nil => cases h
  | cons f front ih =>
    cases cs with
    | nil => simp at hlength
    | cons c cs =>
      simp only [dropFront?, List.cons_append] at h ⊢
      split at h
      · next hc => rw [if_pos hc, ih h (by simpa using hlength)]
      · next hc => rw [if_neg hc]

/-- The schemes of requests. -/
def webSchemes : List String := ["http", "https"]

theorem takeScheme_cases {scheme : String} (h : takeScheme cs = .ok (some scheme, rest))
    (hweb : scheme ∈ webSchemes) :
    dropFront? "http://".toList cs = some rest ∧ scheme = "http" ∨
      dropFront? "http://".toList cs = none ∧ dropFront? "https://".toList cs = some rest ∧
        scheme = "https" := by
  simp only [takeScheme] at h
  split at h
  · next hhttp =>
    cases h
    exact .inl ⟨hhttp, rfl⟩
  · next hhttps hhttp =>
    cases h
    exact .inr ⟨Option.eq_none_iff_forall_ne_some.2 hhttp, hhttps, rfl⟩
  · next hhttp hhttps =>
    split at h
    · next rest' hrest =>
      split at h
      · cases h
      split at h
      · cases h
      obtain ⟨hscheme, rfl⟩ :
          String.ofList (cs.takeWhile isSchemeChar) = scheme ∧ rest' = rest := by
        simpa using h
      have hcs : cs = scheme.toList ++ ("://".toList ++ rest') := by
        rw [← hscheme, String.toList_ofList]
        exact (List.takeWhile_append_dropWhile.symm.trans (by rw [hrest]; rfl))
      have hfound : ∀ front, front = scheme.toList ++ "://".toList → 
          dropFront? front cs = some rest' := by
        rintro front rfl
        rw [hcs, ← List.append_assoc, dropFront?_self]
      simp only [webSchemes, List.mem_cons, List.not_mem_nil, or_false] at hweb
      rcases hweb with rfl | rfl
      · exact absurd (hhttp.symm.trans (hfound _ rfl)) nofun
      · exact absurd (hhttps.symm.trans (hfound _ rfl)) nofun
    · cases h

theorem takeScheme_append {scheme : String} (h : takeScheme cs = .ok (some scheme, rest))
    (hweb : scheme ∈ webSchemes) (more : List Char) :
    takeScheme (cs ++ more) = .ok (some scheme, rest ++ more) := by
  rcases takeScheme_cases h hweb with ⟨hhttp, rfl⟩ | ⟨hhttp, hhttps, rfl⟩
  · simp only [takeScheme, dropFront?_append hhttp]
  · have hlength : "http://".toList.length ≤ cs.length := by
      obtain ⟨begun, rfl, hbegun⟩ := dropFront?_eq_some hhttps
      have := congrArg List.length hbegun
      simp at this ⊢
      omega
    simp only [takeScheme, dropFront?_append hhttps, dropFront?_append_eq_none hhttp hlength]

/-! ### Authority -/

open Fallible

theorem takeAuthority_eq_ok {authority : String} :
    takeAuthority cs = .ok (authority, rest) ↔
      (∃ s, (cs.takeWhile fun c => !endsAuthority c).foldlM AuthorityScan.step {} = .ok s ∧
        s.isComplete = true) ∧
      String.ofList (cs.takeWhile fun c => !endsAuthority c) = authority ∧
      (cs.dropWhile fun c => !endsAuthority c) = rest := by
  simp only [takeAuthority, bind_eq_ok]
  constructor
  · rintro ⟨s, hs, h⟩
    split at h
    · next hcomplete =>
      cases h
      exact ⟨⟨s, hs, hcomplete⟩, rfl, rfl⟩
    · cases h
  · rintro ⟨⟨s, hs, hcomplete⟩, rfl, rfl⟩
    exact ⟨s, hs, if_pos hcomplete⟩

/-- What is put behind an authority is no part of it if it begins as a path
does. -/
theorem takeAuthority_append {authority : String} (h : takeAuthority cs = .ok (authority, rest))
    (more : List Char) :
    takeAuthority (cs ++ '/' :: more) = .ok (authority, rest ++ '/' :: more) := by
  rw [takeAuthority_eq_ok] at h ⊢
  obtain ⟨hscan, hauthority, rfl⟩ := h
  rw [takeWhile_append_stop (fun c => !endsAuthority c) rfl,
    dropWhile_append_stop (fun c => !endsAuthority c) rfl]
  exact ⟨hscan, hauthority, rfl⟩

/-! ### Path and query -/

/-- What stands before the fragment. -/
def beforeFragment (cs : List Char) : List Char := cs.takeWhile (· ≠ '#')

/-- What stands behind the first `?`, if there is one. -/
def behindMark (cs : List Char) : Option (List Char) :=
  match cs.dropWhile (· ≠ '?') with
  | _ :: query => some query
  | [] => none

theorem readPath_eq (cs : List Char) : readPath cs =
    if ((beforeFragment cs).takeWhile (· ≠ '?')).all isPathChar &&
        ((behindMark (beforeFragment cs)).getD []).all isQueryChar then
      .ok (String.ofList ((beforeFragment cs).takeWhile (· ≠ '?')),
        (behindMark (beforeFragment cs)).map String.ofList)
    else .error .invalidCharacter :=
  rfl

theorem readPath_ok {path : String} {query : Option String} (h : readPath cs = .ok (path, query)) :
    path = String.ofList ((beforeFragment cs).takeWhile (· ≠ '?')) ∧
      query = (behindMark (beforeFragment cs)).map String.ofList := by
  rw [readPath_eq] at h
  split at h
  · cases h
    exact ⟨rfl, rfl⟩
  · cases h

/-! #### With something put behind -/

theorem beforeFragment_append (h : '#' ∈ cs) (more : List Char) :
    beforeFragment (cs ++ more) = beforeFragment cs := by
  obtain ⟨front, back, rfl⟩ := List.append_of_mem h
  rw [List.append_assoc, List.cons_append, beforeFragment, beforeFragment,
    takeWhile_append_stop (· ≠ '#') rfl, takeWhile_append_stop (· ≠ '#') rfl]

theorem beforeFragment_eq_self (h : '#' ∉ cs) : beforeFragment cs = cs :=
  List.takeWhile_eq_self_iff.2 fun _ hc => decide_eq_true fun he => h (he ▸ hc)

/-! #### The first question mark -/

theorem path_of_mark {front : List Char} (h : '?' ∉ front) (back : List Char) :
    (front ++ '?' :: back).takeWhile (· ≠ '?') = front ∧
      behindMark (front ++ '?' :: back) = some back := by
  have hall : ∀ c ∈ front, decide (c ≠ '?') = true := fun _ hc =>
    decide_eq_true fun he => h (he ▸ hc)
  rw [behindMark, List.takeWhile_append_of_pos hall, List.dropWhile_append_of_pos hall]
  simp

theorem path_of_no_mark (h : '?' ∉ cs) :
    cs.takeWhile (· ≠ '?') = cs ∧ behindMark cs = none := by
  have hall : ∀ c ∈ cs, decide (c ≠ '?') = true := fun _ hc =>
    decide_eq_true fun he => h (he ▸ hc)
  rw [behindMark, List.dropWhile_eq_nil_iff.2 hall]
  exact ⟨List.takeWhile_eq_self_iff.2 hall, rfl⟩

/-- Without a fragment the target is what was read, unless there is no path. -/
theorem target_of_readPath {u : Uri} (h : readPath cs = .ok (u.path, u.query)) (hplain : '#' ∉ cs)
    (hpath : cs.takeWhile (· ≠ '?') ≠ []) : u.target = String.ofList cs := by
  obtain ⟨hu, huquery⟩ := readPath_ok h
  rw [beforeFragment_eq_self hplain] at hu huquery
  have hne : u.path ≠ "" := by
    rw [hu, Ne, String.ofList_eq_empty_iff]
    exact hpath
  have htarget : u.target = u.query.elim u.path (u.path ++ "?" ++ ·) := by
    cases hquery : u.query <;> simp only [target, if_neg hne, hquery, Option.elim]
  by_cases hmem : '?' ∈ cs
  · obtain ⟨front, back, rfl, hfront⟩ := List.eq_append_cons_of_mem hmem
    rw [(path_of_mark hfront back).1] at hu
    rw [(path_of_mark hfront back).2] at huquery
    rw [htarget, huquery, hu, ← String.toList_inj]
    simp
  · rw [(path_of_no_mark hmem).1] at hu
    rw [(path_of_no_mark hmem).2] at huquery
    rw [htarget, huquery, hu]
    rfl

/-! ### The whole -/

theorem readAbsolute_ok {scheme : String} {u : Uri} (h : readAbsolute scheme cs = .ok u) :
    ∃ tail, takeAuthority cs = .ok (u.authority, tail) ∧ readPath tail = .ok (u.path, u.query) ∧
      u.scheme = some scheme := by
  obtain ⟨⟨authority, tail⟩, hauthority, h⟩ := bind_eq_ok.1 h
  dsimp only at h
  split at h
  · cases h
  · obtain ⟨⟨path, query⟩, hpath, h⟩ := bind_eq_ok.1 h
    cases h
    exact ⟨tail, hauthority, hpath, rfl⟩

theorem read_of_takeScheme {s scheme : String} (h : takeScheme s.toList = .ok (some scheme, rest)) :
    read s = if mostBytes < s.utf8ByteSize then .error .tooLong else readAbsolute scheme rest := by
  rw [read]
  split
  · rfl
  split
  · next hs => rw [hs] at h; cases h
  · next hs => rw [hs] at h; cases h
  · next hs => rw [hs] at h; cases h
  · rw [h]; rfl

theorem read_ok {s : String} {u : Uri} {scheme : String} (h : read s = .ok u)
    (hscheme : u.scheme = some scheme) :
    ∃ rest, takeScheme s.toList = .ok (some scheme, rest) ∧ readAbsolute scheme rest = .ok u := by
  rw [read] at h
  split at h
  · cases h
  split at h
  · cases h
  · cases h
    cases hscheme
  · obtain ⟨⟨path, query⟩, -, h⟩ := bind_eq_ok.1 h
    cases h
    cases hscheme
  · obtain ⟨⟨taken, rest⟩, htaken, h⟩ := bind_eq_ok.1 h
    cases taken with
    | none =>
      obtain ⟨⟨authority, tail⟩, -, h⟩ := bind_eq_ok.1 h
      dsimp only at h
      split at h <;> cases h
      cases hscheme
    | some taken =>
      obtain ⟨tail, -, -, htaken'⟩ := readAbsolute_ok h
      obtain rfl := Option.some.inj (htaken'.symm.trans hscheme)
      exact ⟨rest, htaken, h⟩

/-! ### A path behind a URI -/

/-- The characters that end the path of a URI. -/
def marks : List Char := ['?', '#']

theorem forall_mem_marks {P : Char → Prop} : (∀ c ∈ marks, P c) ↔ P '?' ∧ P '#' := by
  simp [marks]

theorem endsAuthority_of_mem_marks : ∀ c ∈ marks, endsAuthority c = true :=
  forall_mem_marks.2 (by decide)

/-- A mark is in neither the scheme nor the authority. -/
theorem mem_tail_iff {scheme authority : String} {tail : List Char} {c : Char} (hc : c ∈ marks)
    (hscheme : takeScheme cs = .ok (some scheme, rest)) (hweb : scheme ∈ webSchemes)
    (hauthority : takeAuthority rest = .ok (authority, tail)) : c ∈ cs ↔ c ∈ tail := by
  obtain ⟨front, hfront, htaken⟩ : ∃ front, dropFront? front cs = some rest ∧
      ∀ c ∈ marks, c.toLower ∉ front.map Char.toLower := by
    simp only [forall_mem_marks]
    rcases takeScheme_cases hscheme hweb with ⟨h, -⟩ | ⟨-, h, -⟩
    · exact ⟨_, h, by decide⟩
    · exact ⟨_, h, by decide⟩
  obtain ⟨begun, rfl, hbegun⟩ := dropFront?_eq_some hfront
  obtain ⟨-, -, rfl⟩ := takeAuthority_eq_ok.1 hauthority
  have hnot : c ∉ begun := fun h => htaken c hc (hbegun ▸ List.mem_map_of_mem h)
  have hnot' : c ∉ rest.takeWhile fun c => !endsAuthority c := by
    intro h
    have hends := List.mem_takeWhile_imp h
    simp [endsAuthority_of_mem_marks c hc] at hends
  calc
    c ∈ begun ++ rest ↔ c ∈ rest := by simp [hnot]
    _ ↔ c ∈ rest.takeWhile (fun c => !endsAuthority c) ++
          rest.dropWhile fun c => !endsAuthority c := by rw [List.takeWhile_append_dropWhile]
    _ ↔ c ∈ rest.dropWhile fun c => !endsAuthority c := by
      rw [List.mem_append, or_iff_right hnot']

/-- A URI is read as far as its path when something is put behind it. -/
theorem read_append {s p scheme : String} {u v : Uri} (h : read s = .ok u)
    (hscheme : u.scheme = some scheme) (hweb : scheme ∈ webSchemes)
    (hv : read (s ++ "/" ++ p) = .ok v) :
    ∃ tail, readPath tail = .ok (u.path, u.query) ∧
      readPath (tail ++ '/' :: p.toList) = .ok (v.path, v.query) ∧
      v.scheme = u.scheme ∧ v.authority = u.authority ∧
      ∀ c ∈ marks, (c ∈ s.toList ↔ c ∈ tail) := by
  obtain ⟨rest, htaken, habsolute⟩ := read_ok h hscheme
  obtain ⟨tail, hauthority, hpath, -⟩ := readAbsolute_ok habsolute
  have hchars : (s ++ "/" ++ p).toList = s.toList ++ '/' :: p.toList := by simp
  have htaken' :
      takeScheme (s ++ "/" ++ p).toList = .ok (some scheme, rest ++ '/' :: p.toList) := by
    rw [hchars]
    exact takeScheme_append htaken hweb _
  rw [read_of_takeScheme htaken'] at hv
  split at hv
  · cases hv
  obtain ⟨tail', hauthority', hpath', hscheme'⟩ := readAbsolute_ok hv
  rw [takeAuthority_append hauthority] at hauthority'
  obtain ⟨hsame, rfl⟩ : u.authority = v.authority ∧ tail ++ '/' :: p.toList = tail' := by
    simpa using hauthority'
  exact ⟨tail, hpath, hpath', hscheme'.trans hscheme.symm, hsame.symm,
    fun c hc => mem_tail_iff hc htaken hweb hauthority⟩

section

variable {s p scheme : String} {u v : Uri} (h : read s = .ok u) (hscheme : u.scheme = some scheme)
  (hweb : scheme ∈ webSchemes) (hv : read (s ++ "/" ++ p) = .ok v)

include h hscheme hweb hv

theorem read_append_host : v.scheme = u.scheme ∧ v.authority = u.authority := by
  obtain ⟨_, -, -, hsame, hsame', -⟩ := read_append h hscheme hweb hv
  exact ⟨hsame, hsame'⟩

/-- What is put behind a fragment is dropped with it. -/
theorem read_append_of_fragment (hfragment : '#' ∈ s.toList) : v = u := by
  obtain ⟨tail, hpath, hpath', hsame, hsame', hmarks⟩ := read_append h hscheme hweb hv
  have hmem : '#' ∈ tail := (hmarks '#' (by decide)).1 hfragment
  rw [readPath_eq, beforeFragment_append hmem, ← readPath_eq, hpath] at hpath'
  cases u
  cases v
  simp_all

/-- What is put behind a query becomes part of it. -/
theorem target_append_of_query (hplain : '#' ∉ s.toList) (hpath : '#' ∉ p.toList)
    (hquery : '?' ∈ s.toList) : v.target = u.target ++ "/" ++ p := by
  obtain ⟨tail, hread, hread', -, -, hmarks⟩ := read_append h hscheme hweb hv
  have hnot : '#' ∉ tail := fun hmem => hplain ((hmarks '#' (by decide)).2 hmem)
  have hnot' : '#' ∉ tail ++ '/' :: p.toList := by simp [hnot, hpath]
  have hmem := (hmarks '?' (by decide)).1 hquery
  obtain ⟨front, back, rfl, hfront⟩ := List.eq_append_cons_of_mem hmem
  obtain ⟨hu, huquery⟩ := readPath_ok hread
  obtain ⟨hv, hvquery⟩ := readPath_ok hread'
  rw [beforeFragment_eq_self hnot] at hu huquery
  rw [beforeFragment_eq_self hnot', List.append_assoc, List.cons_append] at hv hvquery
  rw [(path_of_mark hfront _).1] at hu hv
  rw [(path_of_mark hfront _).2] at huquery hvquery
  simp only [target, hu, hv, huquery, hvquery, Option.map_some]
  rw [← String.toList_inj]
  simp

theorem target_append (hplain : '#' ∉ s.toList) (hpath : '#' ∉ p.toList)
    (hquery : '?' ∉ s.toList) : v.target = u.path ++ "/" ++ p := by
  obtain ⟨tail, hread, hread', -, -, hmarks⟩ := read_append h hscheme hweb hv
  have hnot : '#' ∉ tail := fun hmem => hplain ((hmarks '#' (by decide)).2 hmem)
  have hnot' : '#' ∉ tail ++ '/' :: p.toList := by simp [hnot, hpath]
  have hnone : '?' ∉ tail := fun hmem => hquery ((hmarks '?' (by decide)).2 hmem)
  obtain ⟨hu, -⟩ := readPath_ok hread
  rw [beforeFragment_eq_self hnot, (path_of_no_mark hnone).1] at hu
  have hslash : (tail ++ '/' :: p.toList).takeWhile (· ≠ '?') ≠ [] := by
    cases tail with
    | nil => simp
    | cons c tail =>
      have hc : c ≠ '?' := fun he => hnone (by simp [he])
      simp [hc]
  rw [target_of_readPath hread' hnot' hslash, hu, ← String.toList_inj]
  simp

end

end Uri

/-! ## Paths of resources -/

namespace Percent

/-- A written piece has no mark of a fragment. -/
theorem hash_not_mem_encode (s : String) : '#' ∉ (encode s).toList := by
  intro h
  have hall : ∀ n < 256, '#' ∉ encodeByte (UInt8.ofNat n) := by decide +kernel
  simp only [encode, String.toList_ofList, encodeBytes, List.mem_flatMap] at h
  obtain ⟨b, -, hb⟩ := h
  have hnot := hall b.toNat b.toNat_lt
  rw [UInt8.ofNat_toNat] at hnot
  exact hnot hb

end Percent

namespace Admin

open Dialogue

namespace Path

theorem hash_not_mem_write {p : Path} (h : p.Regular) : '#' ∉ p.write.toList := by
  have hpiece (s : String) : '#' ∉ pieceChars s := Percent.hash_not_mem_encode s
  have hfront : '#' ∉ frontChars p.segments := by
    intro h
    rcases mem_intercalate h with h | ⟨piece, hmem, h⟩
    · cases h
    · obtain ⟨s, -, rfl⟩ := List.mem_map.1 hmem
      exact hpiece s h
  have hquery : '#' ∉ queryChars p.query := by
    intro h
    rcases mem_intercalate h with h | ⟨piece, hmem, h⟩
    · cases h
    · obtain ⟨parameter, -, rfl⟩ := List.mem_map.1 hmem
      simp [parameterChars, hpiece] at h
  rw [write_chars h]
  split
  · exact hfront
  · simp [hfront, hquery]

end Path

/-- The path of a resource does not begin with a slash. -/
theorem Resource.trimStart_write (project : String) (r : Resource) :
    Text.trimStart '/' (r.path project).write = (r.path project).write := by
  have hhead : ∃ rest, (r.path project).write.toList = 'a' :: rest := by
    rw [Path.write_toList]
    cases r with
    | services token | versions _ token => cases token <;> exact ⟨_, rfl⟩
    | _ => exact ⟨_, rfl⟩
  obtain ⟨rest, hrest⟩ := hhead
  rw [Text.trimStart, hrest, List.dropWhile_cons_of_neg (by decide), ← hrest, String.ofList_toList]

end Admin

/-! ## Requests under a root -/

open Dialogue Admin

/-- The path or the method that a request names. -/
def Request.path : Request → String
  | get path _ | patch path _ _ => path
  | call method _ _ => method

/-- The method by which the admin API is asked. -/
def Request.method? : Request → Option Admin.Method
  | get _ _ => some .get
  | patch _ _ _ => some .patch
  | call _ _ _ => none

namespace Admin.Endpoint

/-- What is sent for a request, if it can be built. -/
def sent (e : Endpoint) : Request → Except Fault HttpRequest
  | .get path caller => e.prepare .get path none caller
  | .patch path body caller => e.prepare .patch path (some body) caller
  | .call method _ _ => .error (.protocol s!"no method {method}")

/-- A request that some operation makes over the endpoint. -/
def Made (e : Endpoint) (request : Request) : Prop :=
  ∃ project identity op server made received, Reaches server
    (((Access.admin project e).client identity).perform op).run made received ∧ request ∈ made

/-- Where a request that is sent goes under a root. -/
structure Lands (e : Endpoint) (root : Uri) (request : Request) (sent : HttpRequest) : Prop where
  method : request.method? = some sent.method
  host : sent.uri.scheme = root.scheme ∧ sent.uri.authority = root.authority
  /-- Under a host with a path, the path of the request goes behind that. -/
  target : '?' ∉ e.baseUrl.toList → '#' ∉ e.baseUrl.toList →
    sent.uri.target = root.path ++ "/" ++ request.path
  /-- Behind a query it becomes part of the query. -/
  query : '?' ∈ e.baseUrl.toList → '#' ∉ e.baseUrl.toList →
    sent.uri.target = root.target ++ "/" ++ request.path
  /-- Behind a fragment it is dropped. -/
  fragment : '#' ∈ e.baseUrl.toList → sent.uri = root

variable {e : Endpoint} {request : Request} {sent : HttpRequest} {project caller : String}

theorem prepare_ok {method : Method} {path : String} {body : Option Bytes}
    (h : e.prepare method path body caller = .ok sent) :
    sent.method = method ∧ Uri.read (e.url path) = .ok sent.uri := by
  simp only [prepare] at h
  split at h
  · cases h
  · next uri huri =>
    split at h
    · cases h
      exact ⟨rfl, huri⟩
    · cases h

/-- The network is told of what is sent and of nothing else. -/
theorem answer_eq (e : Endpoint) (perform : HttpRequest → HttpEnding) (request : Request) :
    e.answer perform request = match e.sent request with
      | .error fault => .error fault
      | .ok sent => e.reply sent.method request.path (perform sent) := by
  cases request with
  | call method message caller => rfl
  | get path caller =>
    simp only [answer, exchange, Endpoint.sent]
    cases h : e.prepare .get path none caller with
    | error fault => rfl
    | ok sent =>
      show e.reply .get path (perform sent) = e.reply sent.method path (perform sent)
      rw [(prepare_ok h).1]
  | patch path body caller =>
    simp only [answer, exchange, Endpoint.sent]
    cases h : e.prepare .patch path (some body) caller with
    | error fault => rfl
    | ok sent =>
      show e.reply .patch path (perform sent) = e.reply sent.method path (perform sent)
      rw [(prepare_ok h).1]

/-- A request for a resource is sent to what is read where its path is put
behind the root. -/
theorem sent_ok (hasked : Asked project caller request) (h : e.sent request = .ok sent) :
    request.method? = some sent.method ∧ '#' ∉ request.path.toList ∧
      Uri.read (e.baseUrl ++ "/" ++ request.path) = .ok sent.uri := by
  cases hasked with
  | read r =>
    obtain ⟨hmethod, huri⟩ := prepare_ok h
    rw [url, r.trimStart_write] at huri
    exact ⟨congrArg some hmethod.symm, Path.hash_not_mem_write (r.path_regular project), huri⟩
  | change module name mask body =>
    obtain ⟨hmethod, huri⟩ := prepare_ok h
    rw [url, Resource.trimStart_write] at huri
    exact ⟨congrArg some hmethod.symm,
      Path.hash_not_mem_write (Resource.path_regular project _), huri⟩

theorem Made.asked (h : e.Made request) : ∃ project caller, Asked project caller request := by
  obtain ⟨project, identity, op, _, _, _, hreaches, hmem⟩ := h
  exact ⟨project, _, (Access.perform_asks project e identity op).made hreaches request hmem⟩

theorem ofSettings_ok {s : AdminSettings} (h : ofSettings s = .ok e) :
    e.baseUrl = Text.trimEnd '/' s.baseUrl ∧ ∃ root scheme, Uri.read e.baseUrl = .ok root ∧
      root.scheme = some scheme ∧ scheme ∈ Uri.webSchemes := by
  simp only [ofSettings] at h
  split at h
  · cases h
  · next root hroot =>
    split at h
    · cases h
    · next hscheme =>
      cases h
      refine ⟨rfl, root, ?_⟩
      simp only [schemeProblem?] at hscheme
      split at hscheme
      · next hweb =>
        rcases hweb with hweb | ⟨hweb, -⟩
        · exact ⟨"https", hroot, hweb, by decide⟩
        · exact ⟨"http", hroot, hweb, by decide⟩
      · cases hscheme

theorem lands {root : Uri} {scheme : String} (hroot : Uri.read e.baseUrl = .ok root)
    (hscheme : root.scheme = some scheme) (hweb : scheme ∈ Uri.webSchemes)
    (hasked : Asked project caller request) (h : e.sent request = .ok sent) :
    e.Lands root request sent := by
  obtain ⟨hmethod, hhash, hread⟩ := sent_ok hasked h
  exact ⟨hmethod, Uri.read_append_host hroot hscheme hweb hread,
    fun hquery hplain => Uri.target_append hroot hscheme hweb hread hplain hhash hquery,
    fun hquery hplain => Uri.target_append_of_query hroot hscheme hweb hread hplain hhash hquery,
    fun hfragment => Uri.read_append_of_fragment hroot hscheme hweb hread hfragment⟩

/-- Under a root without a fragment, what a request names is read off its
target. -/
theorem Lands.path_inj {root : Uri} {request' : Request} {sent' : HttpRequest}
    (h : e.Lands root request sent) (h' : e.Lands root request' sent')
    (hplain : '#' ∉ e.baseUrl.toList) (hsame : sent.uri.target = sent'.uri.target) :
    request.path = request'.path := by
  by_cases hquery : '?' ∈ e.baseUrl.toList
  · rw [h.query hquery hplain, h'.query hquery hplain] at hsame
    exact (String.append_right_inj _).1 hsame
  · rw [h.target hquery hplain, h'.target hquery hplain] at hsame
    exact (String.append_right_inj _).1 hsame

end Admin.Endpoint

open Endpoint in
/-- **Targets of requests.** Whatever root is accepted, a request that an
operation makes goes to the host of the root, and there to the root's path
without the slashes at its end, a slash, and the path of the request: so to its
resource, and no two paths to one target. That is so of roots that are a host
with a path. Behind a query the path of the request becomes part of the query;
behind a fragment it is dropped, and all requests have the target of the root. -/
theorem requests_land_under_root {s : AdminSettings} {e : Endpoint}
    (h : Endpoint.ofSettings s = .ok e) :
    (e.baseUrl.toList.getLast? ≠ some '/' ∧
      ∃ count, s.baseUrl = e.baseUrl ++ String.ofList (List.replicate count '/')) ∧
    ∃ root, Uri.read e.baseUrl = .ok root ∧
      (∀ request, e.Made request → ∀ sent, e.sent request = .ok sent → e.Lands root request sent) ∧
      (∀ request request', e.Made request → e.Made request' → ∀ sent sent',
        e.sent request = .ok sent → e.sent request' = .ok sent' →
        '#' ∉ e.baseUrl.toList → sent.uri.target = sent'.uri.target →
        request.path = request'.path) ∧
      ∀ perform request, e.answer perform request = match e.sent request with
        | .error fault => .error fault
        | .ok sent => e.reply sent.method request.path (perform sent) := by
  obtain ⟨hbase, root, scheme, hroot, hscheme, hweb⟩ := ofSettings_ok h
  have hlands : ∀ request, e.Made request → ∀ sent, e.sent request = .ok sent →
      e.Lands root request sent := by
    intro request hmade sent hsent
    obtain ⟨_, _, hasked⟩ := hmade.asked
    exact lands hroot hscheme hweb hasked hsent
  refine ⟨hbase ▸ Text.trimEnd_spec '/' s.baseUrl, root, hroot, hlands, ?_, e.answer_eq⟩
  intro request request' hmade hmade' sent sent' hsent hsent' hplain
  exact (hlands _ hmade _ hsent).path_inj (hlands _ hmade' _ hsent') hplain

/-- One listing under three roots that are accepted: only under the first are
the services asked for. -/
theorem requests_land_under_root_marks :
    let endpoint (baseUrl : String) : Endpoint := ⟨baseUrl, 60000, "client", none⟩
    let settings (baseUrl : String) : AdminSettings := { baseUrl, userAgentPrefix := "client" }
    let request : Request := .get "apps/demo/services" "get_modules"
    let sent (path : String) (query : Option String) : HttpRequest :=
      ⟨.get, ⟨some "https", "api.test", path, query⟩,
        [("user-agent", "client/get_modules"), ("accept", "application/json")], []⟩
    (Endpoint.ofSettings (settings "https://api.test/v1//") = .ok (endpoint "https://api.test/v1") ∧
      (endpoint "https://api.test/v1").sent request = .ok (sent "/v1/apps/demo/services" none) ∧
      (sent "/v1/apps/demo/services" none).uri.target = "/v1/apps/demo/services") ∧
    (Endpoint.ofSettings (settings "https://api.test/v1?key=k") =
        .ok (endpoint "https://api.test/v1?key=k") ∧
      (endpoint "https://api.test/v1?key=k").sent request =
        .ok (sent "/v1" (some "key=k/apps/demo/services")) ∧
      (sent "/v1" (some "key=k/apps/demo/services")).uri.target =
        "/v1?key=k/apps/demo/services") ∧
    Endpoint.ofSettings (settings "https://api.test/v1#top") =
        .ok (endpoint "https://api.test/v1#top") ∧
      (endpoint "https://api.test/v1#top").sent request = .ok (sent "/v1" none) ∧
      (sent "/v1" none).uri.target = "/v1" := by
  intro endpoint settings request sent
  have hmade (e : Endpoint) : e.Made request := by
    have hstart : Reaches (fun _ _ => .error (.io ""))
        (((Access.admin "demo" e).client .unknown).perform .listModules).run [] [] := .start
    exact ⟨"demo", .unknown, .listModules, _, _, _, hstart.ask rfl, List.mem_singleton_self _⟩
  have hplain : Endpoint.ofSettings (settings "https://api.test/v1//") =
      .ok (endpoint "https://api.test/v1") := by decide +kernel
  have hquery : Endpoint.ofSettings (settings "https://api.test/v1?key=k") =
      .ok (endpoint "https://api.test/v1?key=k") := by decide +kernel
  have hfragment : Endpoint.ofSettings (settings "https://api.test/v1#top") =
      .ok (endpoint "https://api.test/v1#top") := by decide +kernel
  have hsent : (endpoint "https://api.test/v1").sent request =
      .ok (sent "/v1/apps/demo/services" none) := by decide +kernel
  have hsent' : (endpoint "https://api.test/v1?key=k").sent request =
      .ok (sent "/v1" (some "key=k/apps/demo/services")) := by decide +kernel
  have hsent'' : (endpoint "https://api.test/v1#top").sent request =
      .ok (sent "/v1" none) := by decide +kernel
  obtain ⟨-, root, hroot, hlands, -⟩ := requests_land_under_root hplain
  obtain ⟨-, root', hroot', hlands', -⟩ := requests_land_under_root hquery
  obtain ⟨-, root'', hroot'', hlands'', -⟩ := requests_land_under_root hfragment
  have hread : Uri.read "https://api.test/v1" = .ok ⟨some "https", "api.test", "/v1", none⟩ := by
    decide +kernel
  have hread' : Uri.read "https://api.test/v1?key=k" =
      .ok ⟨some "https", "api.test", "/v1", some "key=k"⟩ := by decide +kernel
  have hread'' : Uri.read "https://api.test/v1#top" =
      .ok ⟨some "https", "api.test", "/v1", none⟩ := by decide +kernel
  cases hroot.symm.trans hread
  cases hroot'.symm.trans hread'
  cases hroot''.symm.trans hread''
  refine ⟨⟨hplain, hsent, ?_⟩, ⟨hquery, hsent', ?_⟩, hfragment, hsent'', ?_⟩
  · exact (hlands request (hmade _) _ hsent).target (by decide) (by decide)
  · exact (hlands' request (hmade _) _ hsent').query (by decide) (by decide)
  · exact congrArg Uri.target ((hlands'' request (hmade _) _ hsent'').fragment (by decide))

end ControlPlane
