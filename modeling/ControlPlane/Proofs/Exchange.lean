/-
What a fault does to an exchange. `StopsAt` says that a fault in reply to any
request ends the exchange there, with an outcome that hangs on the fault
alone; it holds of a single request and is kept by all that operations are
made of, so each operation's answer to a fault is read off the way it
classifies one. A reply that is no fault may be of no use either, such as a
body that cannot be read: `StopsAtFlaw` says the same of all that is flawed.
-/
import ControlPlane.Proofs.Dialogue
import ControlPlane.Request

namespace ControlPlane.Exchange

open Dialogue

variable {α β ε ε' : Type}

/-- Which replies to a request cannot be used, and what fault each comes to. -/
abbrev Flaw := Request → Reply → Option Fault

/-- Nothing is wrong with a reply but that it is a fault. -/
def faulty : Flaw
  | _, .error fault => some fault
  | _, .ok _ => none

/-- Whatever the exchange asks for next, a flawed reply ends it with the outcome
that `r` gives for the flaw. -/
structure StopsAtFlaw (flaw : Flaw) (r : Fault → α) (d : Exchange α) : Prop where
  steady : Steady d
  stops : ∀ {received request}, d received = .error request → ∀ {reply fault},
    flaw request reply = some fault → d (received ++ [reply]) = .ok (r fault, [])

namespace StopsAtFlaw

variable {flaw : Flaw} {r : Fault → α} {d : Exchange α}

/-- What asks for nothing stops at nothing. -/
theorem pure (a : α) : StopsAtFlaw flaw r (Pure.pure a) where
  steady := Steady.pure a
  stops h := by cases h

theorem map (g : α → β) (h : StopsAtFlaw flaw r d) :
    StopsAtFlaw flaw (fun fault => g (r fault)) (g <$> d) where
  steady := by
    rw [map_eq_pure_bind]
    exact h.steady.bind fun _ => Steady.pure _
  stops := by
    intro received request hask reply fault hflaw
    rw [map_eq_pure_bind, bind_apply] at hask ⊢
    cases hd : d received with
    | error asked =>
      rw [hd] at hask
      cases hask
      simp only [h.stops hd hflaw]
      rfl
    | ok p => rw [hd] at hask; cases hask

/-- A run in which a request gets a flawed reply ends there. -/
theorem ends (h : StopsAtFlaw flaw r d) {server : Server Request Reply}
    {made received request fault} (hr : Reaches server d made received)
    (hask : d received = .error request) (hflaw : flaw request (server made request) = some fault) :
    Ends server d (made ++ [request]) (r fault) :=
  (hr.ask hask).ends h.steady (h.stops hask hflaw)

end StopsAtFlaw

/-- Whatever the exchange asks for next, a flawed reply makes it fail as `c`
says of the flaw. -/
abbrev FailsAtFlaw (flaw : Flaw) (c : Fault → ε) (x : ExceptT ε Exchange α) : Prop :=
  StopsAtFlaw flaw (fun fault => .error (c fault)) x.run

namespace FailsAtFlaw

variable {flaw : Flaw} {c : Fault → ε} {x : ExceptT ε Exchange α}

/-- A request alone, to which no body is flawed. -/
theorem send {request : Request}
    (h : ∀ {reply fault}, flaw request reply = some fault → reply = .error fault) :
    FailsAtFlaw flaw id (Exchange.send request) where
  steady := Steady.ask request
  stops := by
    intro received asked hask reply fault hflaw
    cases received with
    | nil => cases hask; cases h hflaw; rfl
    | cons reply received => cases hask

/-- A decision fails at nothing. -/
theorem decided (a : Except ε α) : FailsAtFlaw flaw c (ExceptT.mk (Pure.pure a)) :=
  StopsAtFlaw.pure a

theorem map (g : α → β) (h : FailsAtFlaw flaw c x) : FailsAtFlaw flaw c (g <$> x) := by
  rw [FailsAtFlaw, ExceptT.run_map]
  exact StopsAtFlaw.map (Except.map g) h

/-- The failures of an exchange told in another way. -/
theorem adapt (g : ε → ε') (h : FailsAtFlaw flaw c x) :
    FailsAtFlaw flaw (fun fault => g (c fault)) (x.adapt g) :=
  StopsAtFlaw.map (Except.mapError g) h

/-- A flaw in the first part ends the sequence, and one in the second part
finds the first part settled. -/
theorem bind {f : α → ExceptT ε Exchange β} (hx : FailsAtFlaw flaw c x)
    (hf : ∀ a, FailsAtFlaw flaw c (f a)) : FailsAtFlaw flaw c (x >>= f) where
  steady := hx.steady.run_bind fun a => (hf a).steady
  stops := by
    intro received request hask reply fault hflaw
    rw [run_bind_apply] at hask ⊢
    rcases hr : x.run received with asked | ⟨_ | a, rest⟩
    · rw [hr] at hask
      cases hask
      simp only [hx.stops hr hflaw]
    · rw [hr] at hask; cases hask
    · rw [hr] at hask
      obtain ⟨used, rfl, hused⟩ := hx.steady hr
      simp only [List.append_assoc, hused]
      exact (hf a).stops hask hflaw

end FailsAtFlaw

/-! ## Faults -/

/-- Whatever the exchange asks for next, a fault ends it with the outcome that
`r` gives for it. -/
structure StopsAt (r : Fault → α) (d : Exchange α) : Prop where
  steady : Steady d
  stops : ∀ {received request}, d received = .error request →
    ∀ fault, d (received ++ [.error fault]) = .ok (r fault, [])

theorem faulty_eq_some {request : Request} {reply : Reply} {fault : Fault} :
    faulty request reply = some fault ↔ reply = .error fault := by
  cases reply <;> simp [faulty]

theorem stopsAt_iff {r : Fault → α} {d : Exchange α} : StopsAt r d ↔ StopsAtFlaw faulty r d := by
  constructor
  · rintro ⟨steady, stops⟩
    exact ⟨steady, fun hask _ fault h => faulty_eq_some.1 h ▸ stops hask fault⟩
  · rintro ⟨steady, stops⟩
    exact ⟨steady, fun hask _ => stops hask (faulty_eq_some.2 rfl)⟩

namespace StopsAt

variable {r : Fault → α} {d : Exchange α}

theorem pure (a : α) : StopsAt r (Pure.pure a) := stopsAt_iff.2 (.pure a)

theorem map (g : α → β) (h : StopsAt r d) : StopsAt (fun fault => g (r fault)) (g <$> d) :=
  stopsAt_iff.2 (.map g (stopsAt_iff.1 h))

/-- A run in which a request is answered by a fault ends there. -/
theorem ends (h : StopsAt r d) {server : Server Request Reply} {made received request fault}
    (hr : Reaches server d made received) (hask : d received = .error request)
    (hreply : server made request = .error fault) :
    Ends server d (made ++ [request]) (r fault) :=
  (stopsAt_iff.1 h).ends hr hask (faulty_eq_some.2 hreply)

end StopsAt

/-- Whatever the exchange asks for next, a fault makes it fail as `c` says. -/
abbrev FailsAs (c : Fault → ε) (x : ExceptT ε Exchange α) : Prop :=
  StopsAt (fun fault => .error (c fault)) x.run

namespace FailsAs

variable {c : Fault → ε} {x : ExceptT ε Exchange α}

theorem send (request : Request) : FailsAs id (Exchange.send request) :=
  stopsAt_iff.2 (FailsAtFlaw.send faulty_eq_some.1)

theorem decided (a : Except ε α) : FailsAs c (ExceptT.mk (Pure.pure a)) := StopsAt.pure a

theorem map (g : α → β) (h : FailsAs c x) : FailsAs c (g <$> x) :=
  stopsAt_iff.2 (FailsAtFlaw.map g (stopsAt_iff.1 h))

theorem adapt (g : ε → ε') (h : FailsAs c x) : FailsAs (fun fault => g (c fault)) (x.adapt g) :=
  StopsAt.map (Except.mapError g) h

theorem bind {f : α → ExceptT ε Exchange β} (hx : FailsAs c x) (hf : ∀ a, FailsAs c (f a)) :
    FailsAs c (x >>= f) :=
  stopsAt_iff.2 (FailsAtFlaw.bind (stopsAt_iff.1 hx) fun a => stopsAt_iff.1 (hf a))

end FailsAs
end ControlPlane.Exchange
