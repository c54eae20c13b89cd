/-
What becomes of bytes that are not all text. Where a character stands it is
read; where none does, as many bytes as could have been the beginning of one, or
a single byte that could not, make one gap, and a gap is read as one replacement
character. That is told here without a scanner (`Repairs`), and the scanner does
just that (`repairs_iff`).
-/
import ControlPlane.Proofs.Utf8

namespace ControlPlane.Utf8

/-- The bytes are the beginning of a character, or all of it. -/
def Begins (bytes : Bytes) : Prop := ∃ c, bytes <+: String.utf8EncodeChar c

/-- A stretch of bytes before others in which no character has been written. -/
structure Gap (stretch rest : Bytes) : Prop where
  nonempty : stretch ≠ []
  broken : ∀ c, ¬ String.utf8EncodeChar c <+: stretch ++ rest
  begins : Begins stretch ∨ stretch.length = 1
  /-- With the next byte it would not be the beginning of a character. -/
  longest : ∀ b ∈ rest.head?, ¬ Begins (stretch ++ [b])

/-- The bytes are read as these characters, with a replacement for each gap. -/
inductive Repairs : Bytes → List Char → Prop
  | nil : Repairs [] []
  | char {c : Char} {rest : Bytes} {cs : List Char} : Repairs rest cs →
      Repairs (String.utf8EncodeChar c ++ rest) (c :: cs)
  | gap {stretch rest : Bytes} {cs : List Char} : Gap stretch rest → Repairs rest cs →
      Repairs (stretch ++ rest) (Char.ofNat 0xFFFD :: cs)

theorem Begins.left {bytes more : Bytes} (h : Begins (bytes ++ more)) : Begins bytes := by
  obtain ⟨c, hc⟩ := h
  exact ⟨c, (List.prefix_append bytes more).trans hc⟩

/-- A gap takes all it can, so none goes on where it ended. -/
theorem Gap.eq_nil {stretch more rest : Bytes} (h : Gap stretch (more ++ rest))
    (h' : Gap (stretch ++ more) rest) : more = [] := by
  cases more with
  | nil => rfl
  | cons b more =>
    have hlong : (stretch ++ b :: more).length ≠ 1 := by
      have hne := List.length_pos_iff.2 h.nonempty
      rw [List.length_append, List.length_cons]
      omega
    have hbegins : Begins (stretch ++ [b] ++ more) := by
      simpa using h'.begins.resolve_right hlong
    exact absurd hbegins.left (h.longest b rfl)

theorem Gap.unique {stretch rest stretch' rest' : Bytes} (h : Gap stretch rest)
    (h' : Gap stretch' rest') (heq : stretch ++ rest = stretch' ++ rest') : rest = rest' := by
  rcases List.append_eq_append_iff.1 heq with ⟨more, rfl, rfl⟩ | ⟨more, rfl, rfl⟩
  · rw [h.eq_nil h', List.nil_append]
  · rw [h'.eq_nil h, List.nil_append]

/-! ## The scanner -/

theorem scan_char (c : Char) (rest : Bytes) :
    scan (String.utf8EncodeChar c ++ rest) = some c :: scan rest :=
  scanFrom_encodeChar c rest

/-- Where the scan finds no character there is none. -/
theorem not_prefix_of_scan {bytes : Bytes} {out : List (Option Char)}
    (h : scan bytes = none :: out) (c : Char) : ¬ String.utf8EncodeChar c <+: bytes := by
  rintro ⟨rest, rfl⟩
  rw [scan_char] at h
  cases h

/-- Bytes that are scanned as no character, whatever follows them, are not the
beginning of one. -/
theorem not_begins_of_scan {bytes : Bytes}
    (h : ∀ rest, ∃ out, scan (bytes ++ rest) = none :: out) : ¬ Begins bytes := by
  rintro ⟨c, rest, hc⟩
  obtain ⟨out, hnone⟩ := h rest
  exact not_prefix_of_scan hnone c (hc ▸ List.prefix_rfl)

theorem scanFrom_stray {b : UInt8} (h : lead b = none) (rest : Bytes) :
    scan (b :: rest) = none :: scan rest := by
  simp only [scan, scanFrom, Pending.step, Pending.idle, Pending.start, h, List.singleton_append]

theorem scanFrom_broken {r : Range} {b : UInt8} (h : ¬ r.contains b = true) (wanted : List Range)
    (bits : Nat) (rest : Bytes) :
    scanFrom ⟨r :: wanted, bits⟩ (b :: rest) = none :: scan (b :: rest) := by
  simp only [scanFrom, scan, Pending.step, Pending.idle, h, Bool.false_eq_true, if_false,
    List.cons_append]

/-- Bytes after which a character has begun and is not complete. Each of the
bytes it wants can be had. -/
structure Leaves (bytes : Bytes) (p : Pending) : Prop where
  scanned : ∀ rest, scan (bytes ++ rest) = scanFrom p rest
  wants : p.wanted ≠ []
  possible : ∀ r ∈ p.wanted, r.contains r.low = true

theorem lead_possible {b : UInt8} {p : Pending} (h : lead b = some p) :
    ∀ r ∈ p.wanted, r.contains r.low = true := by
  unfold lead at h
  repeat' split at h
  all_goals cases h
  all_goals dsimp only; decide

theorem leaves_lead {b : UInt8} {p : Pending} (h : lead b = some p) (hwants : p.wanted ≠ []) :
    Leaves [b] p where
  scanned := by
    obtain ⟨_ | ⟨r, wanted⟩, bits⟩ := p
    · exact absurd rfl hwants
    · exact scanFrom_lead h
  wants := hwants
  possible := lead_possible h

theorem Leaves.next {bytes : Bytes} {r r' : Range} {wanted : List Range} {bits : Nat} {b : UInt8}
    (h : Leaves bytes ⟨r :: r' :: wanted, bits⟩) (hb : r.contains b = true) :
    Leaves (bytes ++ [b]) ⟨r' :: wanted, bits * 64 + b.toNat % 64⟩ where
  scanned rest := by
    rw [List.append_assoc, List.singleton_append, h.scanned, scanFrom_tail hb]
  wants := List.cons_ne_nil _ _
  possible r hr := h.possible r (List.mem_cons_of_mem _ hr)

theorem scanFrom_lows : ∀ {wanted : List Range} {bits : Nat}, wanted ≠ [] →
    (∀ r ∈ wanted, r.contains r.low = true) →
    ∃ c, scanFrom ⟨wanted, bits⟩ (wanted.map (·.low)) = [some c]
  | [r], bits, _, h => ⟨_, scanFrom_last (h r (by simp)) bits []⟩
  | r :: r' :: wanted, bits, _, h => by
    obtain ⟨c, hc⟩ := scanFrom_lows (List.cons_ne_nil r' wanted) fun r hr => h r (by simp [hr])
    exact ⟨c, (scanFrom_tail (h r (by simp)) wanted bits _).trans hc⟩

theorem Leaves.begins {bytes : Bytes} {p : Pending} (h : Leaves bytes p) : Begins bytes := by
  obtain ⟨c, hc⟩ := @scanFrom_lows p.wanted p.bits h.wants h.possible
  obtain ⟨rest, hbytes, hrest⟩ := encodeChar_of_scan ((h.scanned _).trans hc)
  cases rest with
  | nil => exact ⟨c, _, by rw [hbytes, List.append_nil]⟩
  | cons b rest => exact absurd hrest (scanFrom_ne_nil (.inr (List.cons_ne_nil _ _)))

theorem Leaves.nonempty {bytes : Bytes} {p : Pending} (h : Leaves bytes p) : bytes ≠ [] := by
  rintro rfl
  exact scanFrom_ne_nil (.inl h.wants) (h.scanned []).symm

/-- A character begun is not complete where its bytes end, nor before a byte that
does not continue it. -/
theorem Leaves.gap {bytes rest : Bytes} {p : Pending} {out : List (Option Char)}
    (h : Leaves bytes p) (hrest : scanFrom p rest = none :: out)
    (hnext : ∀ b ∈ rest.head?, ∀ rest, ∃ out, scanFrom p (b :: rest) = none :: out) :
    Gap bytes rest where
  nonempty := h.nonempty
  broken := not_prefix_of_scan ((h.scanned rest).trans hrest)
  begins := .inl h.begins
  longest b hb := not_begins_of_scan fun rest => by
    rw [List.append_assoc, List.singleton_append, h.scanned]
    exact hnext b hb rest

theorem Leaves.gap_here {bytes rest : Bytes} {r : Range} {wanted : List Range} {bits : Nat}
    {b : UInt8} {out : List (Option Char)} (h : Leaves bytes ⟨r :: wanted, bits⟩)
    (hb : ¬ r.contains b = true) (hnone : scanFrom ⟨r :: wanted, bits⟩ (b :: rest) = none :: out) :
    ∃ more rest', b :: rest = more ++ rest' ∧ Gap (bytes ++ more) rest' ∧ scan rest' = out := by
  have hgap : Gap bytes (b :: rest) := h.gap hnone fun b' hb' rest' => by
    cases hb'
    exact ⟨_, scanFrom_broken hb wanted bits rest'⟩
  rw [scanFrom_broken hb, List.cons.injEq] at hnone
  exact ⟨[], b :: rest, rfl, by rwa [List.append_nil], hnone.2⟩

/-- By induction on the bytes to come: what has begun goes on while they continue
it, and the gap ends at the first that does not. -/
theorem Leaves.exists_gap {rest bytes : Bytes} {p : Pending} {out : List (Option Char)}
    (h : Leaves bytes p) (hnone : scanFrom p rest = none :: out) :
    ∃ more rest', rest = more ++ rest' ∧ Gap (bytes ++ more) rest' ∧ scan rest' = out := by
  induction rest generalizing bytes p with
  | nil =>
    have hout : out = [] := by
      simp only [scanFrom, List.isEmpty_iff, h.wants, if_false, List.cons.injEq, true_and] at hnone
      exact hnone.symm
    have hgap : Gap bytes [] := h.gap hnone fun b hb => by cases hb
    exact ⟨[], [], rfl, by rwa [List.append_nil], hout.symm⟩
  | cons b rest ih =>
    obtain ⟨_ | ⟨r, _ | ⟨r', wanted⟩⟩, bits⟩ := p
    · exact absurd rfl h.wants
    -- The last byte that is wanted completes a character, which was not found.
    · by_cases hb : r.contains b = true
      · rw [scanFrom_last hb] at hnone
        cases hnone
      · exact h.gap_here hb hnone
    · by_cases hb : r.contains b = true
      · rw [scanFrom_tail hb] at hnone
        obtain ⟨more, rest', rfl, hgap, hout⟩ := ih (h.next hb) hnone
        rw [List.append_assoc] at hgap
        exact ⟨b :: more, rest', rfl, hgap, hout⟩
      · exact h.gap_here hb hnone

theorem exists_gap_of_scan {bytes : Bytes} {out : List (Option Char)}
    (h : scan bytes = none :: out) :
    ∃ stretch rest, bytes = stretch ++ rest ∧ Gap stretch rest ∧ scan rest = out := by
  cases bytes with
  | nil => cases h
  | cons b bytes =>
    cases hlead : lead b with
    | none =>
      have hout : scan bytes = out := (List.cons.inj ((scanFrom_stray hlead bytes).symm.trans h)).2
      have hstray : ∀ rest, ¬ Begins ([b] ++ rest) := fun rest => not_begins_of_scan fun rest' =>
        ⟨_, scanFrom_stray hlead (rest ++ rest')⟩
      exact ⟨[b], bytes, rfl, ⟨List.cons_ne_nil _ _, not_prefix_of_scan h, .inr rfl,
        fun b' _ => hstray [b']⟩, hout⟩
    | some p =>
      obtain ⟨_ | ⟨r, wanted⟩, bits⟩ := p
      · rw [scan, scanFrom_single hlead] at h
        cases h
      · have hleaves : Leaves [b] ⟨r :: wanted, bits⟩ := leaves_lead hlead (List.cons_ne_nil _ _)
        obtain ⟨more, rest, rfl, hgap, hout⟩ :=
          hleaves.exists_gap ((hleaves.scanned bytes).symm.trans h)
        exact ⟨b :: more, rest, rfl, hgap, hout⟩

theorem scan_eq_nil {bytes : Bytes} (h : scan bytes = []) : bytes = [] := by
  cases bytes with
  | nil => rfl
  | cons b bytes => exact absurd h (scanFrom_ne_nil (.inr (List.cons_ne_nil _ _)))

theorem repairs_of_scan : ∀ {out : List (Option Char)} {bytes : Bytes}, scan bytes = out →
    Repairs bytes (out.map fun c => c.getD (Char.ofNat 0xFFFD))
  | [], bytes, h => by
    rw [scan_eq_nil h]
    exact .nil
  | some c :: out, bytes, h => by
    obtain ⟨rest, rfl, hrest⟩ := encodeChar_of_scan h
    exact .char (repairs_of_scan hrest)
  | none :: out, bytes, h => by
    obtain ⟨stretch, rest, rfl, hgap, hrest⟩ := exists_gap_of_scan h
    exact .gap hgap (repairs_of_scan hrest)

/-! ## One reading -/

theorem Gap.scan {stretch rest : Bytes} (h : Gap stretch rest) :
    scan (stretch ++ rest) = none :: scan rest := by
  cases hscan : Utf8.scan (stretch ++ rest) with
  | nil => exact absurd (List.append_eq_nil_iff.1 (scan_eq_nil hscan)).1 h.nonempty
  | cons c out =>
    cases c with
    | some c =>
      obtain ⟨rest', hbytes, -⟩ := encodeChar_of_scan hscan
      exact absurd ⟨rest', hbytes.symm⟩ (h.broken c)
    | none =>
      obtain ⟨stretch', rest', heq, hgap, rfl⟩ := exists_gap_of_scan hscan
      rw [h.unique hgap heq]

theorem Repairs.eq_scan {bytes : Bytes} {cs : List Char} (h : Repairs bytes cs) :
    cs = (scan bytes).map fun c => c.getD (Char.ofNat 0xFFFD) := by
  induction h with
  | nil => rfl
  | char _ ih => rw [scan_char, List.map_cons, ← ih, Option.getD_some]
  | gap hgap _ ih => rw [hgap.scan, List.map_cons, ← ih, Option.getD_none]

/-- **Any bytes are read as one text**: the characters written in them, with one
replacement for each gap. -/
theorem repairs_iff {bytes : Bytes} {s : String} : Repairs bytes s.toList ↔ lossy bytes = s := by
  constructor
  · intro h
    rw [lossy, ← h.eq_scan, String.ofList_toList]
  · rintro rfl
    rw [lossy, String.toList_ofList]
    exact repairs_of_scan rfl

end ControlPlane.Utf8
