/-
Submissions at work. The task of a submission makes its requests and hears
their replies while its holder does what holders do (`PendingCall.Step`), in
any order; it ends with what its operation has come to, and neither panics nor
is cancelled. Whatever the order, the requests and the result are those of the
operation as it is awaited (`Dialogue.run`).
-/
import ControlPlane.Proofs.Dialogue
import ControlPlane.Proofs.Interleaving
import ControlPlane.Request
import ControlPlane.Submission

namespace ControlPlane
namespace Submission

open Dialogue (Server Reaches run run_of_reaches run_mono run_unique)

variable {α : Type}

/-! ## Sessions -/

/-- A submission at some moment. -/
structure Session (α : Type) where
  /-- The requests that have had their replies. -/
  made : List Request
  received : List Reply
  /-- The request whose reply the task is waiting for. -/
  inFlight : Option Request
  scene : PendingCall.Scene α

def Session.start (s : Submission Exchange α) : Session α := ⟨[], [], none, ⟨none, s.call, .idle⟩⟩

inductive Event (α : Type)
  | requested (request : Request)
  | heard (reply : Reply)
  /-- What is seen of the call. -/
  | seen (event : PendingCall.Event α)

namespace Event

def request? : Event α → Option Request
  | requested request => some request
  | _ => none

def seen? : Event α → Option (PendingCall.Event α)
  | seen event => some event
  | _ => none

/-- The holder is told the result. -/
abbrev told (poll : Option (PendingCall.Poll α)) (result : Except Failure α) : Event α :=
  seen (.resultDone poll result)

end Event

/-- The requests that were made, in order. -/
def requests (log : List (Event α)) : List Request := log.filterMap Event.request?

/-- What was seen of the call. -/
def seen (log : List (Event α)) : List (PendingCall.Event α) := log.filterMap Event.seen?

@[simp] theorem requests_nil : requests ([] : List (Event α)) = [] := rfl
@[simp] theorem requests_requested (request : Request) (log : List (Event α)) :
    requests (.requested request :: log) = request :: requests log := rfl
@[simp] theorem requests_heard (reply : Reply) (log : List (Event α)) :
    requests (.heard reply :: log) = requests log := rfl
@[simp] theorem requests_seen (event : PendingCall.Event α) (log : List (Event α)) :
    requests (.seen event :: log) = requests log := rfl
@[simp] theorem requests_append (log log' : List (Event α)) :
    requests (log ++ log') = requests log ++ requests log' := List.filterMap_append

@[simp] theorem seen_seen (event : PendingCall.Event α) (log : List (Event α)) :
    seen (.seen event :: log) = event :: seen log := rfl
@[simp] theorem seen_append (log log' : List (Event α)) :
    seen (log ++ log') = seen log ++ seen log' := List.filterMap_append

theorem requests_map (events : List (PendingCall.Event α)) : requests (events.map .seen) = [] := by
  simp [requests, Event.request?]

theorem seen_map (events : List (PendingCall.Event α)) : seen (events.map .seen) = events := by
  induction events with
  | nil => rfl
  | cons event events ih => rw [List.map_cons, seen_seen, ih]

/-- What may happen next. The task goes on by what it has heard so far, and has
no two requests under way. -/
inductive Step (server : Server Request Reply) (task : ExceptT Failure Exchange α) :
    Session α → Event α → Session α → Prop
  | requested {w request} : w.inFlight = none → task.run w.received = .error request →
      Step server task w (.requested request) { w with inFlight := some request }
  | heard {w request} : w.inFlight = some request →
      Step server task w (.heard (server w.made request))
        { w with made := w.made ++ [request], received := w.received ++ [server w.made request],
                 inFlight := none }
  | returned {w result rest scene} : w.inFlight = none →
      task.run w.received = .ok (result, rest) →
      PendingCall.Step w.scene (.ended (.returned result)) scene →
      Step server task w (.seen (.ended (.returned result))) { w with scene := scene }
  /-- The holder does something. -/
  | held {w event scene} : (∀ outcome, event ≠ .ended outcome) →
      PendingCall.Step w.scene event scene →
      Step server task w (.seen event) { w with scene := scene }

/-- Any course of a submission. -/
abbrev Steps (server : Server Request Reply) (task : ExceptT Failure Exchange α) :
    Session α → List (Event α) → Session α → Prop :=
  Chain (Step server task)

variable {server : Server Request Reply} {task : ExceptT Failure Exchange α}
  {s : Submission Exchange α} {w w' : Session α} {event : Event α} {log : List (Event α)}

/-! ## The task -/

/-- The task is where the replies have led it, and has ended only where its
operation has. -/
structure Session.Sound (server : Server Request Reply) (task : ExceptT Failure Exchange α)
    (w : Session α) : Prop where
  reached : Reaches server task.run w.made w.received
  asks : ∀ request, w.inFlight = some request → task.run w.received = .error request
  ended : ∀ outcome, w.scene.task = some outcome →
    ∃ result rest, outcome = .returned result ∧ task.run w.received = .ok (result, rest)

namespace Session

theorem Sound.start : (start s).Sound server task where
  reached := .start
  asks _ h := by cases h
  ended _ h := by cases h

theorem Sound.quiet (h : w.Sound server task) {outcome : TaskOutcome α}
    (hended : w.scene.task = some outcome) : w.inFlight = none := by
  obtain ⟨result, rest, -, hdone⟩ := h.ended outcome hended
  cases hflight : w.inFlight with
  | none => rfl
  | some request => cases hdone.symm.trans (h.asks request hflight)

theorem Sound.step (hstep : Step server task w event w') (h : w.Sound server task) :
    w'.Sound server task := by
  cases hstep with
  | requested hquiet hask =>
    refine ⟨h.reached, fun request hflight => ?_, h.ended⟩
    cases hflight
    exact hask
  | heard hflight =>
    refine ⟨h.reached.ask (h.asks _ hflight), nofun, fun outcome hended => ?_⟩
    -- A task whose reply is still to come has not ended.
    cases hflight.symm.trans (h.quiet hended)
  | @returned result rest scene hquiet hdone hscene =>
    refine ⟨h.reached, h.asks, fun outcome hended => ?_⟩
    rcases hscene.task_eq_some.1 hended with hbefore | hnow
    · exact h.ended outcome hbefore
    · cases hnow
      exact ⟨result, rest, rfl, hdone⟩
  | held hother hscene =>
    refine ⟨h.reached, h.asks, fun outcome hended => ?_⟩
    rcases hscene.task_eq_some.1 hended with hbefore | hnow
    · exact h.ended outcome hbefore
    · exact absurd hnow (hother outcome)

end Session

theorem Steps.sound (h : Steps server task (.start s) log w) : w.Sound server task :=
  h.keeps Session.Sound.step .start

theorem Steps.sent (h : Steps server task w log w') :
    w'.made ++ w'.inFlight.toList = w.made ++ w.inFlight.toList ++ requests log := by
  induction h with
  | nil => simp
  | cons hstep _ ih =>
    rw [ih]
    cases hstep with
    | requested hquiet => simp [hquiet]
    | heard hflight => simp [hflight]
    | returned | held => simp

theorem Steps.sent_start (h : Steps server task (.start s) log w) :
    w.made ++ w.inFlight.toList = requests log := by
  simpa [Session.start] using h.sent

/-! ## The call -/

/-- What is seen of a submission is a course of its call. -/
theorem Steps.call (h : Steps server task w log w') :
    PendingCall.Steps w.scene (seen log) w'.scene := by
  induction h with
  | nil => exact .nil _
  | cons hstep _ ih =>
    cases hstep with
    | requested | heard => exact ih
    | returned _ _ hscene | held _ hscene => exact .cons hscene ih

theorem Steps.call_start (h : Steps server task (.start s) log w) :
    PendingCall.Steps (PendingCall.Scene.start s.operation) (seen log) w.scene :=
  h.call

/-- Once the task has ended, its holder is all that goes on. -/
theorem steps_of_ended {scene scene' : PendingCall.Scene α} {events : List (PendingCall.Event α)}
    (h : PendingCall.Steps scene events scene') {outcome : TaskOutcome α}
    (hended : scene.task = some outcome) (w : Session α) :
    Steps server task { w with scene := scene } (events.map .seen) { w with scene := scene' } := by
  induction h with
  | nil => exact .nil _
  | @cons scene scene₁ scene' event events hstep _ ih =>
    have hother : ∀ outcome', event ≠ .ended outcome' := by
      rintro outcome' rfl
      cases hstep with
      | ended hnone => cases hnone.symm.trans hended
    exact .cons (.held hother hstep) (ih (hstep.task_eq_some.2 (.inl hended)))

/-! ## The result -/

/-- Up to any moment the requests are the first ones of the awaited operation. -/
theorem Steps.made (h : Steps server task (.start s) log w) :
    ∃ fuel, (run server fuel [] task.run).requests = requests log := by
  rw [← h.sent_start]
  cases hflight : w.inFlight with
  | none =>
    rw [Option.toList_none, List.append_nil]
    exact ⟨_, h.sound.reached.run_requests⟩
  | some request =>
    have hnext := h.sound.reached.ask (h.sound.asks request hflight)
    exact ⟨_, hnext.run_requests⟩

/-- Where the task has ended, so has the awaited operation. -/
theorem Steps.run_eq (h : Steps server task (.start s) log w) {outcome : TaskOutcome α}
    (hended : w.scene.task = some outcome) :
    ∃ fuel result, outcome = .returned result ∧
      run server fuel [] task.run = ⟨requests log, some result⟩ := by
  obtain ⟨result, rest, houtcome, hdone⟩ := h.sound.ended outcome hended
  have hmade : w.made = requests log := by
    rw [← h.sent_start, h.sound.quiet hended]
    simp
  refine ⟨w.made.length, result, houtcome, ?_⟩
  rw [← hmade]
  exact run_of_reaches h.sound.reached hdone (Nat.le_refl _)

theorem Steps.told (h : Steps server task (.start s) log w)
    {poll : Option (PendingCall.Poll α)} {result : Except Failure α}
    (htold : .told poll result ∈ log) :
    ∃ fuel, run server fuel [] task.run = ⟨requests log, some result⟩ := by
  have hseen : .resultDone poll result ∈ seen log :=
    List.mem_filterMap.2 ⟨_, htold, rfl⟩
  obtain ⟨before, after, hsplit⟩ := List.append_of_mem hseen
  have hcall := h.call_start
  rw [hsplit] at hcall
  obtain ⟨⟨outcome, hended, rfl⟩, -⟩ := hcall.told
  have htask : w.scene.task = some outcome :=
    hcall.task_start.2 (List.mem_append_left _ hended)
  obtain ⟨fuel, result, rfl, hrun⟩ := h.run_eq htask
  exact ⟨fuel, hrun⟩

/-- Where the awaited operation comes to a result the task has its way to its
end, whatever its holder is doing. -/
theorem ends_of_carryOn {made : List Request} {result : Except Failure α} {fuel : Nat}
    {w : Session α} (hquiet : w.inFlight = none) (htask : w.scene.task = none)
    (hrun : Dialogue.carryOn server task.run fuel w.made w.received = ⟨made, some result⟩) :
    ∃ log w', Steps server task w log w' ∧ PendingCall.completedWaits (seen log) = 0 ∧
      w'.scene.holder = w.scene.holder ∧ ∃ outcome, w'.scene.task = some outcome := by
  cases hd : task.run w.received with
  | ok p => exact ⟨_, _, .cons (.returned hquiet hd (.ended htask)) (.nil _), rfl, rfl, _, rfl⟩
  | error request =>
    cases fuel with
    | zero => simp [Dialogue.carryOn, hd] at hrun
    | succ fuel =>
      rw [Dialogue.carryOn, hd] at hrun
      let w₁ : Session α :=
        ⟨w.made ++ [request], w.received ++ [server w.made request], none, w.scene⟩
      obtain ⟨log, w', hsteps, hrest⟩ := ends_of_carryOn (w := w₁) rfl htask hrun
      exact ⟨_, w', .cons (.requested hquiet hd) (.cons (.heard rfl) hsteps), hrest⟩

theorem Session.Sound.ends (h : w.Sound server task) {fuel made} {result : Except Failure α}
    (hrun : run server fuel [] task.run = ⟨made, some result⟩) :
    ∃ log w', Steps server task w log w' ∧ PendingCall.completedWaits (seen log) = 0 ∧
      w'.scene.holder = w.scene.holder ∧ ∃ outcome, w'.scene.task = some outcome := by
  -- From wherever the task has got to, the awaited operation is carried on alike.
  have hcarryOn {made' received'} (hr : Reaches server task.run made' received') :
      Dialogue.carryOn server task.run fuel made' received' = ⟨made, some result⟩ :=
    (Dialogue.carryOn_of_reaches hr fuel).symm.trans (run_mono hrun (Nat.le_add_right _ _))
  cases htask : w.scene.task with
  | some outcome => exact ⟨[], w, .nil w, rfl, rfl, outcome, htask⟩
  | none =>
    cases hflight : w.inFlight with
    | none => exact ends_of_carryOn hflight htask (hcarryOn h.reached)
    | some request =>
      have hnext := h.reached.ask (h.asks request hflight)
      let w₁ : Session α :=
        ⟨w.made ++ [request], w.received ++ [server w.made request], none, w.scene⟩
      obtain ⟨log, w', hsteps, hrest⟩ := ends_of_carryOn (w := w₁) rfl htask (hcarryOn hnext)
      exact ⟨_, w', .cons (.heard hflight) hsteps, hrest⟩

/-- The task of a submission goes on to its end, held or not, if the awaited
operation comes to a result. -/
theorem Steps.ends (h : Steps server task (.start s) log w) {fuel made} {result : Except Failure α}
    (hrun : run server fuel [] task.run = ⟨made, some result⟩) :
    ∃ log' w', Steps server task w log' w' ∧ PendingCall.completedWaits (seen log') = 0 ∧
      w'.scene.holder = w.scene.holder ∧ w'.scene.task = some (.returned result) ∧
      requests (log ++ log') = made := by
  obtain ⟨log', w', hsteps, hwaits, hholder, outcome, htask⟩ := h.sound.ends hrun
  have hreached : Steps server task (.start s) (log ++ log') w' := h.append hsteps
  obtain ⟨fuel', result', rfl, hrun'⟩ := hreached.run_eq htask
  obtain ⟨hmade, rfl⟩ := run_unique hrun' hrun
  exact ⟨log', w', hsteps, hwaits, hholder, htask, hmade⟩

/-- So whoever holds the call can be told the result. -/
theorem Steps.tells (h : Steps server task (.start s) log w) (hheld : w.scene.holder ≠ .gone)
    {result : Except Failure α} (htask : w.scene.task = some (.returned result)) :
    ∃ log' poll w', Steps server task w (log' ++ [.told poll result]) w' ∧
      PendingCall.completedWaits (seen log') = 0 ∧ requests log' = [] := by
  have hcall := h.call_start
  obtain ⟨events, poll, scene, hsteps, hwaits⟩ := hcall.tells (hcall.task_start.1 htask) hheld
  have hlifted : Steps server task w _ { w with scene := scene } :=
    steps_of_ended hsteps htask w
  rw [List.map_append] at hlifted
  exact ⟨_, poll, _, hlifted, by rwa [seen_map], requests_map events⟩

/-- However often its holder has waited for it. -/
theorem Steps.waits (h : Steps server task (.start s) log w) (hidle : w.scene.holder = .idle)
    {result : Except Failure α} (htask : w.scene.task = some (.returned result)) (count : Nat) :
    ∃ log' w', Steps server task w log' w' ∧ PendingCall.completedWaits (seen log') = count ∧
      requests log' = [] ∧ w'.scene.holder = .idle ∧ w'.scene.task = some (.returned result) := by
  have hcall := h.call_start
  obtain ⟨events, scene, hsteps, hwaits, hholder⟩ :=
    hcall.waits_again (hcall.task_start.1 htask) hidle count
  refine ⟨_, _, steps_of_ended hsteps htask w, by rwa [seen_map], requests_map events, hholder, ?_⟩
  exact hsteps.task_eq_some.2 (.inl htask)

/-- A submission does as the operation `x` by the name `name` does when it is
awaited. -/
structure AsAwaited (server : Server Request Reply) (name : String)
    (x : ExceptT Failure Exchange α) (s : Submission Exchange α) : Prop where
  /-- The call is known by the operation's name. -/
  name : ∀ log w, Steps server s.task (.start s) log w → w.scene.call.operation = name
  /-- Up to any moment the requests are the first ones of the operation. -/
  made : ∀ log w, Steps server s.task (.start s) log w →
    ∃ fuel, (run server fuel [] x.run).requests = requests log
  /-- The result that is told is the operation's, which made the same requests. -/
  told : ∀ log w poll result, Steps server s.task (.start s) log w → .told poll result ∈ log →
    ∃ fuel, run server fuel [] x.run = ⟨requests log, some result⟩
  /-- What the operation comes to, the holder can be told at any time. -/
  tells : ∀ fuel made result, run server fuel [] x.run = ⟨made, some result⟩ →
    ∀ log w, Steps server s.task (.start s) log w → w.scene.holder ≠ .gone →
      ∃ log' poll w', Steps server s.task w (log' ++ [.told poll result]) w' ∧
        requests (log ++ log') = made
  /-- Any number of waits may come before that. -/
  waits : ∀ fuel made result, run server fuel [] x.run = ⟨made, some result⟩ →
    ∀ log w, Steps server s.task (.start s) log w → w.scene.holder = .idle →
      ∀ count, ∃ log' poll w', Steps server s.task w (log' ++ [.told poll result]) w' ∧
        PendingCall.completedWaits (seen log') = count ∧ requests (log ++ log') = made

theorem asAwaited (server : Server Request Reply) (s : Submission Exchange α) :
    AsAwaited server s.operation s.task s where
  name _ _ h := h.call_start.sound.name
  made _ _ h := h.made
  told _ _ _ _ h htold := h.told htold
  tells fuel made result hrun log w h hheld := by
    obtain ⟨log₁, w₁, hends, -, hholder, htask, hmade⟩ := h.ends hrun
    have hreached : Steps server s.task (.start s) (log ++ log₁) w₁ := h.append hends
    obtain ⟨log₂, poll, w₂, htells, -, hnone⟩ := hreached.tells (hholder ▸ hheld) htask
    refine ⟨log₁ ++ log₂, poll, w₂, ?_, ?_⟩
    · rw [List.append_assoc]
      exact hends.append htells
    · rw [← List.append_assoc, requests_append, hnone, hmade, List.append_nil]
  waits fuel made result hrun log w h hidle count := by
    obtain ⟨log₁, w₁, hends, hzero, hholder, htask, hmade⟩ := h.ends hrun
    have hended : Steps server s.task (.start s) (log ++ log₁) w₁ := h.append hends
    obtain ⟨log₂, w₂, hwaits, hcount, hnone₂, hidle₂, htask₂⟩ :=
      hended.waits (hholder.trans hidle) htask count
    have hwaited : Steps server s.task (.start s) (log ++ log₁ ++ log₂) w₂ := hended.append hwaits
    obtain ⟨log₃, poll, w₃, htells, hzero₃, hnone₃⟩ :=
      hwaited.tells (by rw [hidle₂]; nofun) htask₂
    refine ⟨log₁ ++ (log₂ ++ log₃), poll, w₃, ?_, ?_, ?_⟩
    · rw [List.append_assoc, List.append_assoc]
      exact hends.append (hwaits.append htells)
    · simp only [seen_append, PendingCall.completedWaits_append, hzero, hcount, hzero₃]
      omega
    · simp only [← List.append_assoc, requests_append, hnone₂, hnone₃, List.append_nil]
      rwa [requests_append] at hmade

end Submission

namespace Client

theorem submit_operation {m : Type → Type} [Monad m] (c : Client m) (op : Operation) :
    (c.submit op).operation = op.name := by
  cases op <;> rfl

/-- The task of a submitted operation is the operation with its arguments. -/
theorem submit_task {m : Type → Type} [Monad m] (c : Client m) (op : Operation) :
    (c.submit op).task = c.perform op := by
  cases op <;> rfl

/-- **Operations in the background.** An operation that is submitted makes the
requests and comes to the result that it makes and comes to when it is awaited,
whatever the caller, the backend and what is replied, and however often the
holder waits meanwhile; its call bears the operation's name. -/
theorem submitted_as_awaited (c : Client Exchange) (op : Operation)
    (server : Dialogue.Server Request Reply) :
    (c.submit op).AsAwaited server op.name (c.perform op) := by
  rw [← c.submit_operation, ← c.submit_task]
  exact (c.submit op).asAwaited server

end Client
end ControlPlane
