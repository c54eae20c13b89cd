/-
Texts that name an instance. Many texts name one instance, as blanks around a
number, a plus sign and zeros in front of it do not count (`Names`); what is
sent and what is answered hangs on the number alone, and shows it in the one
way it is written.
-/
import ControlPlane.Proofs.Demand
import ControlPlane.Proofs.FirstFailure
import ControlPlane.Proofs.Requests

namespace ControlPlane

open Dialogue

/-! ## Reading -/

/-- The text names this number: but for blanks around it, it is the number in
digits, which a plus sign may stand in front of. -/
def Names (raw : String) (n : Nat) : Prop :=
  ∃ core, Text.Padded core raw.toList ∧ Decimal.Unsigned core n

theorem names_iff_trimChars {raw : String} {n : Nat} :
    Names raw n ↔ Decimal.Unsigned (Text.trimChars raw.toList) n :=
  Text.exists_padded_iff fun _ => Decimal.Unsigned.not_blank

theorem parseInstance_eq_ok_iff {raw : String} {n : UInt32} :
    parseInstance raw = .ok n ↔ Names raw n.toNat := by
  have hbound : ∀ k, k ≤ UInt32.size - 1 ↔ k < UInt32.size := by
    intro k
    have hpos : 0 < UInt32.size := by decide
    omega
  rw [names_iff_trimChars, parseInstance]
  constructor
  · intro h
    split at h
    · next k hread =>
      obtain ⟨hcore, hk⟩ := Decimal.unsigned?_eq_some_iff.1 hread
      obtain rfl : UInt32.ofNat k = n := Except.ok.inj h
      rwa [UInt32.toNat_ofNat_of_lt' ((hbound k).1 hk)]
    · cases h
  · intro h
    have hread := Decimal.unsigned?_eq_some_iff.2 ⟨h, (hbound _).2 n.toNat_lt⟩
    simp only [hread, UInt32.ofNat_toNat]

theorem parseInstance_eq_error {raw : String} (h : ∀ n : UInt32, ¬ Names raw n.toNat) :
    parseInstance raw = .error (.malformedInstance raw) := by
  cases hparse : parseInstance raw with
  | ok n => exact absurd (parseInstance_eq_ok_iff.1 hparse) (h n)
  | error failure =>
    unfold parseInstance at hparse
    split at hparse
    · cases hparse
    · cases hparse
      rfl

theorem parseInstance?_eq_ok_iff {raw : String} {n : UInt32} :
    parseInstance? (some raw) = .ok (some n) ↔ Names raw n.toNat := by
  rw [← parseInstance_eq_ok_iff, parseInstance?]
  cases parseInstance raw <;> simp [Except.map]

/-- A number is named by the text it is written as. -/
theorem names_text (n : Nat) : Names (Decimal.text n) n :=
  ⟨(Decimal.text n).toList, ⟨[], [], by simp, by simp, by simp⟩,
    .bare (Decimal.text_written n).digits⟩

/-! ## Use -/

/-- A caller asks for an instance by its number, however that is named. -/
theorem Client.hostname_of_names {c : Client Exchange} {module version : Option String}
    {raw : String} {n : UInt32} (h : Names raw n.toNat) : c.hostname module version (some raw) =
      c.backend.hostname ⟨c.moduleOrCurrent module, c.selector version, some n⟩ := by
  simp only [Client.hostname, parseInstance?_eq_ok_iff.2 h]

namespace HostnameQuery

/-- A hostname of one instance has the number in front as it is written. -/
def IsInstanceOf (q : HostnameQuery) (i : UInt32) (host : String) : Prop :=
  ∃ index version suffix, Decimal.Written index.toList i.toNat ∧ q.version.name = some version ∧
    (host = join [index, version, suffix] ∨ host = join [index, version, q.module, suffix])

variable {q : HostnameQuery} {i : UInt32}

theorem resolveSingle_isInstanceOf (hindex : q.index = some i) {suffix host : String}
    (h : q.resolveSingle suffix = .ok host) : q.IsInstanceOf i host := by
  rw [resolveSingle] at h
  cases hversion : q.versionName with
  | error failure =>
    rw [hversion] at h
    cases h
  | ok version =>
    rw [hversion, hindex] at h
    cases h
    exact ⟨_, version, suffix, Decimal.text_written i.toNat, versionName_eq_ok.1 hversion, .inl rfl⟩

theorem instanceName_isInstanceOf {version suffix host : String} {scaling : Scaling}
    (hversion : q.versionName = .ok version)
    (h : q.instanceName suffix version i scaling = .ok host) : q.IsInstanceOf i host := by
  unfold instanceName at h
  split at h
  · cases h
  · split at h
    · cases h
    · cases h
      exact ⟨_, version, suffix, Decimal.text_written i.toNat, versionName_eq_ok.1 hversion,
        .inr rfl⟩

/-- Whatever the application answers, the hostname of an instance has its number. -/
theorem resolve_isInstanceOf (topology : Topology Exchange) (hindex : q.index = some i) :
    Gives (q.IsInstanceOf i) (q.resolve topology) := by
  refine .bind _ fun names => .bind _ fun suffix => ?_
  unfold address
  by_cases hmem : q.module ∈ names
  case neg =>
    rw [if_pos hmem]
    exact .decided (x := .error _) nofun
  rw [if_neg (not_not_intro hmem)]
  by_cases hsingle : names = [defaultModule]
  · rw [if_pos hsingle]
    exact .decided fun host h => resolveSingle_isInstanceOf hindex h
  · rw [if_neg hsingle, hindex]
    refine .decided_bind fun version hversion => .bind _ fun details => ?_
    exact .decided fun host h => instanceName_isInstanceOf hversion h

end HostnameQuery

/-! ## Instance texts -/

/-- An operation for the hostname of an instance answers with one of its hostnames. -/
theorem Admin.hostname_gives {project : String} {endpoint : Endpoint} {identity : Identity}
    {module version : Option String} {raw : String} {n : UInt32} (h : Names raw n.toNat) :
    Gives (fun answer => ∃ host, HostnameQuery.IsInstanceOf
        ⟨identity.moduleFor module, identity.selectorFor version, some n⟩ n host ∧
          .text host = answer)
      (((Access.admin project endpoint).client identity).perform
        (.hostname module version (some raw))) := by
  rw [Client.perform, Client.hostname_of_names h, Client.moduleOrCurrent_eq, Client.selector_eq]
  exact (HostnameQuery.resolve_isInstanceOf (topology project) rfl).map Answer.text

theorem Legacy.Addressed.eq_segment {n : UInt32} {index : Option String}
    (h : Addressed (some n) index) : index = some (HostnameQuery.segment n) := by
  cases h with
  | single hwritten =>
    have hdigits := hwritten.digits_eq.trans (Decimal.text_written n.toNat).digits_eq.symm
    rw [String.toList_inj.1 hdigits, HostnameQuery.segment]

theorem Legacy.Asks.hostname_eq {identity : Identity} {module : String} {version : Option String}
    {n : UInt32} {demand : Demand}
    (h : Asks (.hostname ⟨module, identity.selectorFor version, some n⟩) demand) :
    demand = .hostname module version (HostnameQuery.segment n) := by
  cases version with
  | some version =>
    cases h with
    | explicit hindex => rw [hindex.eq_segment]
  | none =>
    cases h with
    | current hindex => rw [hindex.eq_segment]

/-- The legacy service is sent the number as it is written, and reads it so. -/
theorem Legacy.hostname_requests (endpoint : Endpoint) (identity : Identity)
    (module version : Option String) {raw : String} {n : UInt32} (h : Names raw n.toNat) :
    ∃ (index : String) (message : Bytes), Decimal.Written index.toList n.toNat ∧
      (∀ replies, (Access.legacy endpoint).requests identity
        (.hostname module version (some raw)) replies =
          [.call "GetHostname" message "get_hostname"]) ∧
      message = (Message.getHostnameRequest (identity.moduleFor module) version index).encode ∧
      ((∀ s ∈ identity.moduleFor module :: version.toList,
          (Utf8.encode s).length < UInt64.size) →
        Demand.read? "GetHostname" message =
          some (.hostname (identity.moduleFor module) version index)) := by
  let call : Backend.Call :=
    .hostname ⟨identity.moduleFor module, identity.selectorFor version, some n⟩
  have hexplicit : (identity.selectorFor version).explicit? = version := by
    cases version <;> rfl
  refine ⟨HostnameQuery.segment n, call.message.encode, Decimal.text_written n.toNat,
    Access.requests_legacy endpoint
      (Operation.call_of_parseInstance? (parseInstance?_eq_ok_iff.2 h)), ?_, fun hstorable => ?_⟩
  · simp only [call, Backend.Call.message, hexplicit, Option.map_some]
  · have htexts : call.Storable := by
      simp only [call, Backend.Call.Storable, Backend.Call.texts, hexplicit]
      exact hstorable
    obtain ⟨demand, hread, hasks⟩ := read?_encode htexts
    rw [← hasks.hostname_eq]
    exact hread

/-- **A text names an instance if it is a number of 32 bits**, with blanks and a
plus sign and zeros in front as may be; and what it is used for hangs on the
number alone. Texts that name one instance make for the same requests and the
same outcome, whoever asks and whatever is answered; and the number shows in
requests and in hostnames as it is written. -/
theorem instance_texts :
    (parseInstance? none = .ok none ∧
      ∀ raw, (∀ n : UInt32, parseInstance? (some raw) = .ok (some n) ↔ Names raw n.toNat) ∧
        ((∀ n ≤ 4294967295, ¬ Names raw n) → parseInstance? (some raw) = .error
          (.invalidInstances
            ("instance must be a non-negative integer, got '" ++ raw ++ "'")))) ∧
    (∀ n : UInt32, parseInstance? (some (Decimal.text n.toNat)) = .ok (some n)) ∧
    (∀ (a : Access) identity module version raw raw' n, n ≤ 4294967295 → Names raw n →
      Names raw' n →
        let perform (raw : String) :=
          ((a.client identity).perform (.hostname module version (some raw))).run
        (∀ replies, requests (perform raw) replies = requests (perform raw') replies) ∧
        ∀ server fuel past, run server fuel past (perform raw) =
          run server fuel past (perform raw')) ∧
    (∀ project endpoint identity module version raw (n : UInt32), Names raw n.toNat →
      ∀ server made answer, Ends server (((Access.admin project endpoint).client identity).perform
        (.hostname module version (some raw))).run made (.ok answer) →
          ∃ index name suffix host, Decimal.Written index.toList n.toNat ∧
            identity.versionFor version = some name ∧ answer = .text host ∧
            (host = HostnameQuery.join [index, name, suffix] ∨
              host = HostnameQuery.join [index, name, identity.moduleFor module, suffix])) ∧
    (∀ endpoint identity module version raw (n : UInt32), Names raw n.toNat →
      ∃ (index : String) (message : Bytes), Decimal.Written index.toList n.toNat ∧
        (∀ replies, (Access.legacy endpoint).requests identity
          (.hostname module version (some raw)) replies =
            [.call "GetHostname" message "get_hostname"]) ∧
        message = (Legacy.Message.getHostnameRequest (identity.moduleFor module) version
          index).encode ∧
        ((∀ s ∈ identity.moduleFor module :: version.toList,
            (Utf8.encode s).length < UInt64.size) →
          Legacy.Demand.read? "GetHostname" message =
            some (.hostname (identity.moduleFor module) version index))) := by
  refine ⟨⟨rfl, fun raw => ⟨fun n => parseInstance?_eq_ok_iff, fun h => ?_⟩⟩, fun n => ?_, ?_, ?_,
    ?_⟩
  · have hnone : ∀ n : UInt32, ¬ Names raw n.toNat :=
      fun n => h n.toNat (Nat.le_of_lt_succ n.toNat_lt)
    rw [parseInstance?, parseInstance_eq_error hnone]
    rfl
  · exact parseInstance?_eq_ok_iff.2 (names_text n.toNat)
  · intro a identity module version raw raw' n hn h h' perform
    have hnumber : (UInt32.ofNat n).toNat = n := UInt32.toNat_ofNat_of_lt' (Nat.lt_succ_of_le hn)
    rw [← hnumber] at h h'
    have hsame : perform raw = perform raw' := by
      simp only [perform, Client.perform, Client.hostname_of_names h, Client.hostname_of_names h']
    rw [hsame]
    exact ⟨fun _ => rfl, fun _ _ _ => rfl⟩
  · intro project endpoint identity module version raw n h server made answer hends
    obtain ⟨host, ⟨index, name, suffix, hindex, hname, hhost⟩, rfl⟩ :=
      (Admin.hostname_gives h).ends hends
    rw [Identity.name_selectorFor] at hname
    exact ⟨index, name, suffix, host, hindex, hname, rfl, hhost⟩
  · intro endpoint identity module version raw n h
    exact Legacy.hostname_requests endpoint identity module version h

/-- Seven, with blanks around it, a sign and zeros, is asked for as seven; and a
number one too great is refused. -/
theorem instance_texts_seven :
    let a : Access := .legacy ⟨"http://127.0.0.1:50051", 5000, 1500⟩
    let asked (raw : String) := a.requests .unknown (.hostname (some "api") none (some raw))
    (∀ replies, asked "\u00A0+007\t" replies = asked "7" replies) ∧
    (∃ message, asked "7" [] = [.call "GetHostname" message "get_hostname"] ∧
      Legacy.Demand.read? "GetHostname" message =
        some (.hostname (some "api") none (some "7"))) ∧
    parseInstance? (some "4294967296") = .error (.invalidInstances
      "instance must be a non-negative integer, got '4294967296'") := by
  intro a asked
  obtain ⟨⟨-, hreads⟩, -, hsame, -, hlegacy⟩ := instance_texts
  have hseven : Names "7" 7 := ((hreads "7").1 7).1 (by decide)
  have hpadded : Names "\u00A0+007\t" 7 := ((hreads _).1 7).1 (by decide)
  obtain ⟨index, message, hindex, hrequests, -, hdemand⟩ :=
    hlegacy ⟨"http://127.0.0.1:50051", 5000, 1500⟩ .unknown (some "api") none "7" 7 hseven
  obtain rfl : index = "7" := String.toList_inj.1 hindex.digits_eq
  refine ⟨(hsame a .unknown (some "api") none _ _ 7 (by decide) hpadded hseven).1,
    ⟨message, hrequests [], hdemand (by decide)⟩, by decide⟩

end ControlPlane
