/-
What policies make of faults. A policy takes the application codes it lists at
their word and reports any other code as it came; to all other faults it makes
no difference. So the kinds of failure that a call of the legacy service may
come to are those of the codes its method lists, and the two that every call
may.
-/
import ControlPlane.Proofs.Methods

namespace ControlPlane.Legacy

open Dialogue

/-! ## Codes -/

namespace Code

/-- The kind of failure a code means. -/
def kind : Code → Failure.Kind
  | invalidModule => .invalidModule
  | invalidVersion => .invalidVersion
  | invalidInstances => .invalidInstances
  | transientError => .transient
  | unexpectedState => .unexpectedState

theorem failure_kind (code : Code) (detail : String) : (code.failure detail).kind = code.kind := by
  cases code <;> rfl

theorem failure_detail (code : Code) (detail : String) :
    (code.failure detail).detail = detail := by
  cases code <;> rfl

theorem kind_ne_generic (code : Code) : code.kind ≠ .generic := by
  cases code <;> nofun

/-- The codes are numbered from one to five. -/
theorem exists_number_eq {n : Int} : (∃ code : Code, code.number = n) ↔ 1 ≤ n ∧ n ≤ 5 := by
  constructor
  · rintro ⟨code, rfl⟩
    cases code <;> decide
  · intro h
    have hcases : n = 1 ∨ n = 2 ∨ n = 3 ∨ n = 4 ∨ n = 5 := by omega
    rcases hcases with rfl | rfl | rfl | rfl | rfl
    · exact ⟨invalidModule, rfl⟩
    · exact ⟨invalidVersion, rfl⟩
    · exact ⟨invalidInstances, rfl⟩
    · exact ⟨transientError, rfl⟩
    · exact ⟨unexpectedState, rfl⟩

end Code

/-! ## Policies -/

namespace Policy

/-- The policy lists the code, as one that is expected or as one that is ignored. -/
def Lists (policy : Policy) (code : Code) : Prop := code ∈ policy.expected ∨ code ∈ policy.ignored

/-- The policy that lists nothing. -/
def empty : Policy := ⟨[], []⟩

variable {policy : Policy} {code : Code} {fault : Fault}

theorem classify_listed (h : policy.Lists code) (detail : String) :
    policy.classify (.application code.number detail) = code.failure detail := by
  have hmem : code ∈ policy.ignored ∨ code ∈ policy.expected := h.symm
  simp only [classify, Code.ofNumber?_number, hmem, if_true]

/-- A number that stands for no code on the list is reported as it came. -/
theorem classify_unlisted {n : Int} (h : ∀ code : Code, code.number = n → ¬ policy.Lists code)
    (detail : String) :
    policy.classify (.application n detail) = .generic detail (some (.application n)) := by
  cases hknown : Code.ofNumber? n with
  | none =>
    simp only [classify, hknown]
    rfl
  | some code =>
    have hnumber : n = code.number := Code.number_of_ofNumber? hknown
    subst hnumber
    exact classify_unexpected (fun hmem => h code rfl hmem.symm) detail

theorem classify_other (h : ∀ n detail, fault ≠ .application n detail) (policy : Policy) :
    policy.classify fault = fault.classify .module := by
  cases fault with
  | application n detail => exact absurd rfl (h n detail)
  | _ => rfl

/-- Only the union of its two lists tells policies apart. -/
theorem classify_congr {policy' : Policy} (h : ∀ code, policy.Lists code ↔ policy'.Lists code) :
    policy.classify = policy'.classify := by
  funext fault
  by_cases happ : ∃ n detail, fault = .application n detail
  · obtain ⟨n, detail, rfl⟩ := happ
    by_cases hlists : ∃ code : Code, code.number = n ∧ policy.Lists code
    · obtain ⟨code, rfl, hlists⟩ := hlists
      rw [classify_listed hlists, classify_listed ((h code).1 hlists)]
    · have hunlisted (code : Code) (hn : code.number = n) : ¬ policy.Lists code :=
        fun hcode => hlists ⟨code, hn, hcode⟩
      rw [classify_unlisted hunlisted,
        classify_unlisted fun code hn hcode => hunlisted code hn ((h code).2 hcode)]
  · have hother (n : Int) (detail : String) : fault ≠ .application n detail :=
      fun heq => happ ⟨n, detail, heq⟩
    rw [classify_other hother, classify_other hother]

/-- The failure that a policy makes of a fault. -/
structure Decides (policy : Policy) (fault : Fault) (failure : Failure) : Prop where
  /-- A number is taken at its word if it is that of a code on the list, and
  only then. -/
  listed : ∀ n detail, fault = .application n detail →
    ((∃ code : Code, code.number = n ∧ failure.kind = code.kind ∧ failure.detail = detail) ↔
      ∃ code : Code, code.number = n ∧ policy.Lists code)
  /-- Any other number is kept, whether it is that of a code or not. -/
  unlisted : ∀ n detail, fault = .application n detail →
    (¬ ∃ code : Code, code.number = n ∧ policy.Lists code) →
    failure = .generic detail (some (.application n))
  /-- For any other fault there might as well be no list. -/
  other : (∀ n detail, fault ≠ .application n detail) → failure = empty.classify fault
  rpc : ∀ code detail, fault = .rpc code detail → failure =
    if code.number ∈ [4, 8, 10, 14] then .transient detail
    else .generic detail (some (.rpc code.number))
  /-- Of these faults only two sorts may pass by themselves. -/
  transient : (∀ n detail, fault ≠ .application n detail) →
    (∀ status detail, fault ≠ .http status detail) →
    (failure.kind = .transient ↔
      (∃ code detail, fault = .rpc code detail ∧ code.number ∈ [4, 8, 10, 14]) ∨
      ∃ detail, fault = .io detail)

theorem classify_application_cases (policy : Policy) (n : Int) (detail : String) :
    (∃ code : Code, code.number = n ∧ policy.Lists code ∧
      policy.classify (.application n detail) = code.failure detail) ∨
    (¬ ∃ code : Code, code.number = n ∧ policy.Lists code) ∧
      policy.classify (.application n detail) = .generic detail (some (.application n)) := by
  by_cases h : ∃ code : Code, code.number = n ∧ policy.Lists code
  · obtain ⟨code, rfl, hlists⟩ := h
    exact .inl ⟨code, rfl, hlists, classify_listed hlists detail⟩
  · exact .inr ⟨h, classify_unlisted (fun code hn hlists => h ⟨code, hn, hlists⟩) detail⟩

theorem classify_rpc (policy : Policy) (code : Rpc.Code) (detail : String) :
    policy.classify (.rpc code detail) = if code.number ∈ [4, 8, 10, 14] then .transient detail
      else .generic detail (some (.rpc code.number)) := by
  cases code <;> rfl

theorem classify_decides (policy : Policy) (fault : Fault) :
    policy.Decides fault (policy.classify fault) where
  listed := by
    rintro n detail rfl
    rcases classify_application_cases policy n detail with
      ⟨code, hn, hlists, hfailure⟩ | ⟨hunlisted, hfailure⟩
    · rw [hfailure]
      exact ⟨fun _ => ⟨code, hn, hlists⟩,
        fun _ => ⟨code, hn, code.failure_kind detail, code.failure_detail detail⟩⟩
    · rw [hfailure]
      refine ⟨?_, fun hlists => absurd hlists hunlisted⟩
      rintro ⟨code, -, hkind, -⟩
      exact absurd hkind.symm code.kind_ne_generic
  unlisted := by
    rintro n detail rfl hunlisted
    exact classify_unlisted (fun code hn hlists => hunlisted ⟨code, hn, hlists⟩) detail
  other h := by rw [classify_other h, classify_other h]
  rpc := by
    rintro code detail rfl
    exact classify_rpc policy code detail
  transient := by
    intro happ hhttp
    cases fault with
    | application n detail => exact absurd rfl (happ n detail)
    | http status detail => exact absurd rfl (hhttp status detail)
    | rpc code detail =>
      rw [classify_rpc]
      by_cases hcode : code.number ∈ [4, 8, 10, 14]
      · rw [if_pos hcode]
        exact ⟨fun _ => .inl ⟨code, detail, rfl, hcode⟩, fun _ => rfl⟩
      · rw [if_neg hcode]
        refine ⟨nofun, ?_⟩
        rintro (⟨code', detail', heq, hcode'⟩ | ⟨_, heq⟩)
        · cases heq
          exact absurd hcode' hcode
        · cases heq
    | io detail => exact ⟨fun _ => .inr ⟨detail, rfl⟩, fun _ => rfl⟩
    | decode detail | protocol detail | request detail =>
      refine ⟨nofun, ?_⟩
      rintro (⟨_, _, heq, -⟩ | ⟨_, heq⟩) <;> cases heq

end Policy

/-! ## The kinds that occur -/

/-- The faults by which a channel tells of a call that failed. -/
def OfChannel : Fault → Prop
  | .application _ _ | .rpc _ _ | .io _ => True
  | _ => False

/-- With some channel the call fails with a failure of this kind. -/
def Occurs (call : Backend.Call) (kind : Failure.Kind) : Prop :=
  ∃ (server : Server Request Reply) (made : List Request) (failure : Failure),
    (∀ past request fault, server past request = .error fault → OfChannel fault) ∧
    Ends server (backend.perform call).run made (.error failure) ∧ failure.kind = kind

/-- The kinds that a policy lets a call come to. -/
def Policy.Admits (policy : Policy) (kind : Failure.Kind) : Prop :=
  kind = .generic ∨ kind = .transient ∨ ∃ code, policy.Lists code ∧ code.kind = kind

theorem Policy.classify_admitted {fault : Fault} (h : OfChannel fault) (policy : Policy) :
    policy.Admits (policy.classify fault).kind := by
  cases fault with
  | application n detail =>
    rcases policy.classify_application_cases n detail with
      ⟨code, -, hlists, hfailure⟩ | ⟨-, hfailure⟩
    · rw [hfailure, code.failure_kind]
      exact .inr (.inr ⟨code, hlists, rfl⟩)
    · rw [hfailure]
      exact .inl rfl
  | rpc code detail =>
    rw [policy.classify_rpc]
    split
    · exact .inr (.inl rfl)
    · exact .inl rfl
  | io detail => exact .inr (.inl rfl)
  | http | decode | protocol | request => exact h.elim

/-- The channel that fails at everything with one fault. -/
theorem occurs_classify {fault : Fault} (h : OfChannel fault) (call : Backend.Call) :
    Occurs call (call.method.policy.classify fault).kind := by
  have hends := perform_ends (fun _ _ => .error fault) call
  refine ⟨_, _, _, ?_, hends, rfl⟩
  rintro - - fault' heq
  cases heq
  exact h

/-- A call comes to no kind but those its policy admits. -/
theorem admits_of_occurs {call : Backend.Call} {kind : Failure.Kind} (h : Occurs call kind) :
    call.method.policy.Admits kind := by
  obtain ⟨server, made, failure, hchannel, hends, rfl⟩ := h
  obtain ⟨-, houtcome⟩ := hends.unique (perform_ends server call)
  cases hreply : call.method.outcome (server [] (call.method.request call.message)) with
  | error refused =>
    rw [hreply] at houtcome
    cases houtcome
    obtain ⟨fault, rfl, hfault⟩ := Method.outcome_eq_error hreply
    rcases hfault with hfault | rfl
    · exact Policy.classify_admitted (hchannel _ _ _ hfault) _
    · exact .inl rfl
  | ok reply =>
    rw [hreply] at houtcome
    exact .inl (read_eq_error houtcome.symm)

theorem occurs_of_admits {call : Backend.Call} {kind : Failure.Kind}
    (h : call.method.policy.Admits kind) : Occurs call kind := by
  rcases h with rfl | rfl | ⟨code, hlists, rfl⟩
  · have hrpc : OfChannel (.rpc .internal "") := trivial
    exact occurs_classify hrpc call
  · have hio : OfChannel (.io "") := trivial
    exact occurs_classify hio call
  · have happ : OfChannel (.application code.number "") := trivial
    have hoccurs := occurs_classify happ call
    rwa [Policy.classify_listed hlists, code.failure_kind] at hoccurs

/-- **The list of a method decides.** An application code is taken at its word
just if the policy lists it, as expected or as ignored, which is the same; any
other number is reported as it came, and all other faults as if nothing were
listed. So what a call of the legacy service may fail with, when its channel
does, is exactly of the kinds its own list names, of no kind, or transient. -/
theorem failures_by_list :
    (∀ (policy : Policy) fault, policy.Decides fault (policy.classify fault)) ∧
    (∀ n : Int, (∃ code : Code, code.number = n) ↔ 1 ≤ n ∧ n ≤ 5) ∧
    (∀ policy policy' : Policy, (∀ code, policy.Lists code ↔ policy'.Lists code) →
      policy.classify = policy'.classify) ∧
    ∀ (call : Backend.Call) (kind : Failure.Kind), Occurs call kind ↔
      kind = .generic ∨ kind = .transient ∨
        ∃ code, call.method.policy.Lists code ∧ code.kind = kind :=
  ⟨Policy.classify_decides, fun _ => Code.exists_number_eq, fun _ _ => Policy.classify_congr,
    fun _ _ => ⟨admits_of_occurs, occurs_of_admits⟩⟩

end ControlPlane.Legacy
