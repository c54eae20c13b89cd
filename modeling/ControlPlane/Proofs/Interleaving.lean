/-
Pending calls in any interleaving. A task ends when it likes; meanwhile its
holder asks whether it has, waits, gives a wait up and begins another, and at
last takes the result or lets go of the call. `Step` tells what may happen next
and what is seen of it, `Steps` any course of that. A join handle is polled by
whoever waits for it, and gives the outcome of its task away: what a call makes
of that outcome is all there is of it from then on.
-/
import ControlPlane.Pending

namespace ControlPlane

/-! ## Chains of steps -/

/-- Steps from one moment to another, and what is seen of them. -/
inductive Chain {σ ε : Type} (step : σ → ε → σ → Prop) : σ → List ε → σ → Prop
  | nil (s) : Chain step s [] s
  | cons {s s' s'' event log} : step s event s' → Chain step s' log s'' →
      Chain step s (event :: log) s''

namespace Chain

variable {σ ε : Type} {step : σ → ε → σ → Prop} {s s' s'' : σ} {event : ε} {log log' : List ε}

theorem append (h : Chain step s log s') (h' : Chain step s' log' s'') :
    Chain step s (log ++ log') s'' := by
  induction h with
  | nil => exact h'
  | cons hstep _ ih => exact .cons hstep (ih h')

/-- A chain has been wherever a part of it ends. -/
theorem of_append (h : Chain step s (log ++ log') s'') :
    ∃ s', Chain step s log s' ∧ Chain step s' log' s'' := by
  induction log generalizing s with
  | nil => exact ⟨s, .nil s, h⟩
  | cons event log ih =>
    cases h with
    | cons hstep h =>
      obtain ⟨s', hlog, hlog'⟩ := ih h
      exact ⟨s', .cons hstep hlog, hlog'⟩

/-- The moments before and after an event. -/
theorem at_event (h : Chain step s (log ++ event :: log') s'') :
    ∃ s₁ s₂, Chain step s log s₁ ∧ step s₁ event s₂ ∧ Chain step s₂ log' s'' := by
  obtain ⟨s₁, hlog, hrest⟩ := h.of_append
  cases hrest with
  | cons hstep hlog' => exact ⟨s₁, _, hlog, hstep, hlog'⟩

/-- What every step keeps, a chain keeps. -/
theorem keeps {P : σ → Prop} (hkeeps : ∀ {s event s'}, step s event s' → P s → P s')
    (h : Chain step s log s') (hs : P s) : P s' := by
  induction h with
  | nil => exact hs
  | cons hstep _ ih => exact ih (hkeeps hstep hs)

end Chain

namespace PendingCall

variable {α : Type} {operation : String}

/-- What a poll of a join handle finds: the outcome of the task, once it has one. -/
abbrev Poll (α : Type) := Option (TaskOutcome α)

/-- What a wait finds when it polls the join handle. A call that has taken the
outcome has none to poll. -/
def poll? (call : PendingCall α) : Option (Poll α) :=
  match call.state with
  | .joined task => some task
  | .settled _ => none

/-! ## Steps -/

/-- What the holder of a call is doing. -/
inductive Holder
  | idle
  /-- A wait is under way. -/
  | waiting
  /-- The call was given up for its result, which is under way. -/
  | taking
  /-- The result was told, or the call dropped. -/
  | gone
  deriving DecidableEq, Repr

/-- A call with its task and its holder. -/
structure Scene (α : Type) where
  /-- How the task ended, once it has. -/
  task : Option (TaskOutcome α)
  call : PendingCall α
  holder : Holder

/-- An operation that has just been submitted. -/
def Scene.start (operation : String) : Scene α := ⟨none, submit operation, .idle⟩

/-- What is seen of a step. Where the join handle may be polled, the event
tells what the poll found. -/
inductive Event (α : Type)
  | ended (outcome : TaskOutcome α)
  | asked (finished : Bool)
  | waitBegun
  /-- The wait goes on. -/
  | waitPolled (poll : Option (Poll α))
  | waitAbandoned
  | waitDone (poll : Option (Poll α))
  | resultBegun
  | resultPolled (poll : Option (Poll α))
  | resultDone (poll : Option (Poll α)) (result : Except Failure α)
  | dropped

def Event.poll? : Event α → Option (Poll α)
  | waitPolled poll | waitDone poll | resultPolled poll | resultDone poll _ => poll
  | _ => none

/-- How many waits came to their end. -/
def completedWaits (log : List (Event α)) : Nat :=
  log.countP fun event => match event with
    | .waitDone _ => true
    | _ => false

theorem completedWaits_append (log log' : List (Event α)) :
    completedWaits (log ++ log') = completedWaits log + completedWaits log' := List.countP_append

inductive Step : Scene α → Event α → Scene α → Prop
  /-- A task ends once, whatever its holder does; nobody need hold it any more. -/
  | ended {s outcome} : s.task = none →
      Step s (.ended outcome) { s with task := some outcome, call := s.call.complete outcome }
  | asked {s} : s.holder ≠ .gone → Step s (.asked s.call.isFinished) s
  | waitBegun {s} : s.holder = .idle → Step s .waitBegun { s with holder := .waiting }
  | waitPolled {s} : s.holder = .waiting → s.call.wait? = none →
      Step s (.waitPolled s.call.poll?) s
  | waitAbandoned {s} : s.holder = .waiting → Step s .waitAbandoned { s with holder := .idle }
  | waitDone {s call} : s.holder = .waiting → s.call.wait? = some call →
      Step s (.waitDone s.call.poll?) { s with call := call, holder := .idle }
  | resultBegun {s} : s.holder = .idle → Step s .resultBegun { s with holder := .taking }
  | resultPolled {s} : s.holder = .taking → s.call.result? = none →
      Step s (.resultPolled s.call.poll?) s
  | resultDone {s result} : s.holder = .taking → s.call.result? = some result →
      Step s (.resultDone s.call.poll? result) { s with holder := .gone }
  | dropped {s} : s.holder ≠ .gone → Step s .dropped { s with holder := .gone }

/-- Any course of a call, its task and its holder. -/
abbrev Steps : Scene α → List (Event α) → Scene α → Prop := Chain Step

variable {s s' : Scene α} {event : Event α} {log : List (Event α)}

/-! ## The call and its task -/

theorem complete_settled {call : PendingCall α} {result : Except Failure α}
    (h : call.state = .settled result) (outcome : TaskOutcome α) :
    call.complete outcome = call := by
  simp only [complete, h]

theorem complete_joined {call : PendingCall α} (h : call.state = .joined none)
    (outcome : TaskOutcome α) :
    call.complete outcome = { call with state := .joined (some outcome) } := by
  simp only [complete, h]

/-- A wait that is over leaves the call with a result. -/
theorem settled_of_wait? {call call' : PendingCall α} (h : call.wait? = some call') :
    call'.operation = call.operation ∧ ∃ result, call'.state = .settled result ∧
      call.result? = some result := by
  unfold wait? at h
  split at h
  · cases h
  · next outcome hstate =>
    cases h
    exact ⟨rfl, outcome.result call.operation, rfl, by simp only [result?, hstate]⟩
  · next result hstate =>
    cases h
    exact ⟨rfl, result, hstate, by simp only [result?, hstate]⟩

/-- A call knows the end of its task as soon as it has come, and nothing else. -/
structure Scene.Sound (operation : String) (s : Scene α) : Prop where
  name : s.call.operation = operation
  joined : ∀ task, s.call.state = .joined task → task = s.task
  settled : ∀ result, s.call.state = .settled result →
    ∃ outcome, s.task = some outcome ∧ result = outcome.result operation

namespace Scene

theorem Sound.start : Sound operation (start operation : Scene α) where
  name := rfl
  joined _ h := by
    cases h
    rfl
  settled _ h := by cases h

theorem Sound.result?_eq (h : s.Sound operation) :
    s.call.result? = s.task.map fun outcome => outcome.result operation := by
  cases hstate : s.call.state with
  | joined task =>
    have htask : task = s.task := h.joined task hstate
    cases task <;> simp [result?, hstate, ← htask, h.name]
  | settled result =>
    obtain ⟨outcome, htask, hresult⟩ := h.settled result hstate
    simp [result?, hstate, htask, hresult]

theorem Sound.isFinished_eq (h : s.Sound operation) : s.call.isFinished = s.task.isSome := by
  cases hstate : s.call.state with
  | joined task =>
    have htask : task = s.task := h.joined task hstate
    simp [isFinished, hstate, htask]
  | settled result =>
    obtain ⟨outcome, htask, -⟩ := h.settled result hstate
    simp [isFinished, hstate, htask]

/-- A wait goes on just as long as the task does. -/
theorem Sound.wait?_eq_none (h : s.Sound operation) : s.call.wait? = none ↔ s.task = none := by
  cases hstate : s.call.state with
  | joined task =>
    have htask : task = s.task := h.joined task hstate
    cases task <;> simp [wait?, hstate, ← htask]
  | settled result =>
    obtain ⟨outcome, htask, -⟩ := h.settled result hstate
    simp [wait?, hstate, htask]

theorem Sound.step (hstep : Step s event s') (h : s.Sound operation) : s'.Sound operation := by
  cases hstep with
  | @ended outcome hnone =>
    -- A call that has a result has had its outcome, so this one is joined still.
    cases hstate : s.call.state with
    | joined task =>
      have htask : task = none := (h.joined task hstate).trans hnone
      subst htask
      have hcall := complete_joined hstate outcome
      refine ⟨by rw [hcall]; exact h.name, fun task hjoined => ?_, fun result hsettled => ?_⟩
      · rw [hcall] at hjoined
        cases hjoined
        rfl
      · rw [hcall] at hsettled
        cases hsettled
    | settled result =>
      obtain ⟨outcome', htask, -⟩ := h.settled result hstate
      cases hnone.symm.trans htask
  | waitDone hholder hwait =>
    obtain ⟨hname, result, hstate, hresult⟩ := settled_of_wait? hwait
    rw [h.result?_eq] at hresult
    refine ⟨hname.trans h.name, fun task hjoined => ?_, fun result' hsettled => ?_⟩
    · cases hstate.symm.trans hjoined
    · cases hstate.symm.trans hsettled
      obtain ⟨outcome, htask, houtcome⟩ := Option.map_eq_some_iff.1 hresult
      exact ⟨outcome, htask, houtcome.symm⟩
  | _ => exact ⟨h.name, h.joined, h.settled⟩

end Scene

theorem Steps.sound (h : Steps (Scene.start operation) log s) : s.Sound operation :=
  h.keeps Scene.Sound.step .start

theorem Step.task_eq_some (h : Step s event s') {outcome : TaskOutcome α} :
    s'.task = some outcome ↔ s.task = some outcome ∨ event = .ended outcome := by
  cases h with
  | ended hnone => simp [hnone, eq_comm]
  | _ => simp

/-- The task has ended in the way that was seen. -/
theorem Steps.task_eq_some (h : Steps s log s') {outcome : TaskOutcome α} :
    s'.task = some outcome ↔ s.task = some outcome ∨ .ended outcome ∈ log := by
  induction h with
  | nil => simp
  | cons hstep _ ih =>
    rw [ih, hstep.task_eq_some, List.mem_cons, or_assoc]
    exact or_congr_right (or_congr_left eq_comm)

theorem Steps.task_start (h : Steps (Scene.start operation) log s) {outcome : TaskOutcome α} :
    s.task = some outcome ↔ .ended outcome ∈ log := by
  rw [h.task_eq_some]
  simp [Scene.start]

theorem Steps.isFinished_iff (h : Steps (Scene.start operation) log s) :
    s.call.isFinished = true ↔ ∃ outcome, .ended outcome ∈ log := by
  rw [h.sound.isFinished_eq, Option.isSome_iff_exists]
  exact exists_congr fun outcome => h.task_start

/-! ## The join handle -/

/-- There is no join handle any more, or nobody to poll it. -/
def Scene.Spent (s : Scene α) : Prop := s.call.poll? = none ∨ s.holder = .gone

theorem poll?_eq_none {call : PendingCall α} {result : Except Failure α}
    (h : call.state = .settled result) : call.poll? = none := by
  simp only [poll?, h]

theorem settled_of_poll? {call : PendingCall α} (h : call.poll? = none) :
    ∃ result, call.state = .settled result := by
  unfold poll? at h
  split at h
  · cases h
  · next result hstate => exact ⟨result, hstate⟩

/-- Where a poll finds an outcome, neither a wait nor a result is held up. -/
theorem of_poll?_eq_some {call : PendingCall α} {outcome : TaskOutcome α}
    (h : call.poll? = some (some outcome)) : call.wait? ≠ none ∧ call.result? ≠ none := by
  unfold poll? at h
  split at h
  · next task hstate =>
    cases h
    simp [wait?, result?, hstate]
  · cases h

/-- A poll that finds the outcome is the last. -/
theorem Step.spent (h : Step s event s') {outcome : TaskOutcome α}
    (hpoll : event.poll? = some (some outcome)) : s'.Spent := by
  cases h with
  | waitPolled hholder hwait => exact absurd hwait (of_poll?_eq_some hpoll).1
  | resultPolled hholder hresult => exact absurd hresult (of_poll?_eq_some hpoll).2
  | waitDone hholder hwait =>
    obtain ⟨-, result, hstate, -⟩ := settled_of_wait? hwait
    exact .inl (poll?_eq_none hstate)
  | resultDone => exact .inr rfl
  | _ => cases hpoll

theorem Scene.Spent.step (h : Step s event s') (hs : s.Spent) :
    event.poll? = none ∧ s'.Spent := by
  rcases hs with hpoll | hgone
  · cases h with
    | @ended outcome =>
      obtain ⟨result, hstate⟩ := settled_of_poll? hpoll
      refine ⟨rfl, .inl ?_⟩
      rw [complete_settled hstate]
      exact hpoll
    | waitDone hholder hwait =>
      obtain ⟨-, result, hstate, -⟩ := settled_of_wait? hwait
      exact ⟨hpoll, .inl (poll?_eq_none hstate)⟩
    | asked | waitBegun | waitAbandoned | resultBegun | dropped => exact ⟨rfl, .inl hpoll⟩
    | waitPolled | resultPolled | resultDone => exact ⟨hpoll, .inl hpoll⟩
  · cases h with
    | ended => exact ⟨rfl, .inr hgone⟩
    | asked hholder | dropped hholder => exact absurd hgone hholder
    | waitBegun hholder | waitPolled hholder | waitAbandoned hholder | waitDone hholder
    | resultBegun hholder | resultPolled hholder | resultDone hholder =>
      rw [hgone] at hholder
      cases hholder

theorem Scene.Spent.steps (h : Steps s log s') (hs : s.Spent) :
    ∀ event ∈ log, event.poll? = none := by
  induction h with
  | nil => simp
  | cons hstep _ ih =>
    obtain ⟨hpoll, hspent⟩ := hs.step hstep
    exact List.forall_mem_cons.2 ⟨hpoll, ih hspent⟩

/-- Nothing is seen of the holder of a call that is gone. -/
theorem Steps.gone (h : Steps s log s') (hgone : s.holder = .gone) :
    ∀ event ∈ log, ∃ outcome, event = .ended outcome := by
  induction h with
  | nil => simp
  | @cons s s₁ s' event log hstep _ ih =>
    cases hstep with
    | ended => exact List.forall_mem_cons.2 ⟨⟨_, rfl⟩, ih hgone⟩
    | asked hholder | dropped hholder => exact absurd hgone hholder
    | waitBegun hholder | waitPolled hholder | waitAbandoned hholder | waitDone hholder
    | resultBegun hholder | resultPolled hholder | resultDone hholder =>
      rw [hgone] at hholder
      cases hholder

/-! ## What is told -/

theorem Steps.at_event {before after : List (Event α)} (h : Steps s (before ++ event :: after) s') :
    ∃ s₁ s₂, Steps s before s₁ ∧ Step s₁ event s₂ ∧ Steps s₂ after s' :=
  Chain.at_event h

theorem Steps.asked_iff {before after : List (Event α)} {finished : Bool}
    (h : Steps (Scene.start operation) (before ++ .asked finished :: after) s) :
    finished = true ↔ ∃ outcome, .ended outcome ∈ before := by
  obtain ⟨s₁, s₂, hbefore, hstep, -⟩ := h.at_event
  cases hstep
  exact hbefore.isFinished_iff

/-- From the end of the task on, to ask is to be told of it. -/
theorem Steps.asked_after {before after : List (Event α)} {finished : Bool}
    (h : Steps (Scene.start operation) (before ++ after) s)
    (hended : ∃ outcome, .ended outcome ∈ before) (hasked : .asked finished ∈ after) :
    finished = true := by
  obtain ⟨middle, rest, rfl⟩ := List.append_of_mem hasked
  obtain ⟨outcome, hmem⟩ := hended
  rw [← List.append_assoc] at h
  exact h.asked_iff.2 ⟨outcome, List.mem_append_left _ hmem⟩

theorem Steps.poll_found {before after : List (Event α)} {poll : Poll α}
    (h : Steps (Scene.start operation) (before ++ event :: after) s)
    (hpoll : event.poll? = some poll) {outcome : TaskOutcome α} :
    poll = some outcome ↔ .ended outcome ∈ before := by
  obtain ⟨s₁, s₂, hbefore, hstep, -⟩ := h.at_event
  have hcall : s₁.call.poll? = some poll := by
    cases hstep with
    | waitPolled | waitDone | resultPolled | resultDone => exact hpoll
    | _ => cases hpoll
  have htask : poll = s₁.task := by
    unfold PendingCall.poll? at hcall
    split at hcall
    · next task hstate =>
      cases hcall
      exact hbefore.sound.joined poll hstate
    · cases hcall
  rw [htask]
  exact hbefore.task_start

/-- A wait is over once the task has ended. -/
theorem Steps.waited {before after : List (Event α)} {poll : Option (Poll α)}
    (h : Steps (Scene.start operation) (before ++ .waitDone poll :: after) s) :
    ∃ outcome, .ended outcome ∈ before := by
  obtain ⟨s₁, s₂, hbefore, hstep, -⟩ := h.at_event
  cases hstep with
  | waitDone hholder hwait =>
    have hended : s₁.task ≠ none := fun hnone => by
      rw [hbefore.sound.wait?_eq_none.2 hnone] at hwait
      cases hwait
    obtain ⟨outcome, htask⟩ := Option.ne_none_iff_exists'.1 hended
    exact ⟨outcome, hbefore.task_start.1 htask⟩

/-- A result is that of the task's end, and the last that is seen. -/
theorem Steps.told {before after : List (Event α)} {poll : Option (Poll α)}
    {result : Except Failure α}
    (h : Steps (Scene.start operation) (before ++ .resultDone poll result :: after) s) :
    (∃ outcome, .ended outcome ∈ before ∧ result = outcome.result operation) ∧ after = [] := by
  obtain ⟨s₁, s₂, hbefore, hstep, hafter⟩ := h.at_event
  cases hstep with
  | resultDone hholder hresult =>
    rw [hbefore.sound.result?_eq] at hresult
    obtain ⟨outcome, htask, houtcome⟩ := Option.map_eq_some_iff.1 hresult
    refine ⟨⟨outcome, hbefore.task_start.1 htask, houtcome.symm⟩, ?_⟩
    cases hafter with
    | nil => rfl
    | cons hnext hrest =>
      -- Only the task could go on without its holder, and it has ended.
      have hgone : Steps { s₁ with holder := .gone } _ s := .cons hnext hrest
      obtain ⟨_, rfl⟩ := hgone.gone rfl _ List.mem_cons_self
      cases hnext with
      | ended hnone => cases htask.symm.trans hnone

/-- Whoever holds a call whose task has ended can have the result, and need not
wait for it. -/
theorem Steps.tells (h : Steps (Scene.start operation) log s) {outcome : TaskOutcome α}
    (hended : .ended outcome ∈ log) (hheld : s.holder ≠ .gone) :
    ∃ log' poll s', Steps s (log' ++ [.resultDone poll (outcome.result operation)]) s' ∧
      completedWaits log' = 0 := by
  have hresult : s.call.result? = some (outcome.result operation) := by
    rw [h.sound.result?_eq, h.task_start.2 hended]
    rfl
  have htaken (holder : Holder) (hholder : holder = .taking) :
      Steps { s with holder := holder }
        [.resultDone s.call.poll? (outcome.result operation)] { s with holder := .gone } :=
    .cons (.resultDone hholder hresult) (.nil _)
  have hbegun (holder : Holder) (hholder : holder = .idle) :
      Steps { s with holder := holder }
        [.resultBegun, .resultDone s.call.poll? (outcome.result operation)]
        { s with holder := .gone } :=
    .cons (.resultBegun hholder) (htaken _ rfl)
  cases hholder : s.holder with
  | idle => exact ⟨[.resultBegun], _, _, hbegun s.holder hholder, rfl⟩
  | waiting =>
    exact ⟨[.waitAbandoned, .resultBegun], _, _, .cons (.waitAbandoned hholder) (hbegun _ rfl), rfl⟩
  | taking => exact ⟨[], _, _, htaken s.holder hholder, rfl⟩
  | gone => exact absurd hholder hheld

theorem Steps.wait_ends (h : Steps (Scene.start operation) log s) {outcome : TaskOutcome α}
    (hended : .ended outcome ∈ log) (hwaiting : s.holder = .waiting) :
    ∃ s', Step s (.waitDone s.call.poll?) s' := by
  have htask : s.task = some outcome := h.task_start.2 hended
  have hwait : s.call.wait? ≠ none := fun hnone => by
    rw [h.sound.wait?_eq_none.1 hnone] at htask
    cases htask
  obtain ⟨call, hcall⟩ := Option.ne_none_iff_exists'.1 hwait
  exact ⟨_, .waitDone hwaiting hcall⟩

/-- A task that has ended can be waited for any number of times. -/
theorem Steps.waits_again (h : Steps (Scene.start operation) log s) {outcome : TaskOutcome α}
    (hended : .ended outcome ∈ log) (hidle : s.holder = .idle) :
    ∀ count, ∃ log' s', Steps s log' s' ∧ completedWaits log' = count ∧ s'.holder = .idle
  | 0 => ⟨[], s, .nil s, rfl, hidle⟩
  | count + 1 => by
    obtain ⟨log', s₁, hsteps, hcount, hidle₁⟩ := h.waits_again hended hidle count
    have hbegun : Steps s (log' ++ [.waitBegun]) { s₁ with holder := .waiting } :=
      hsteps.append (.cons (.waitBegun hidle₁) (.nil _))
    have hreached : Steps (Scene.start operation) (log ++ (log' ++ [.waitBegun])) _ :=
      h.append hbegun
    obtain ⟨s₂, hstep⟩ := hreached.wait_ends (List.mem_append_left _ hended) rfl
    have hidle₂ : s₂.holder = .idle := by
      cases hstep
      rfl
    refine ⟨_, s₂, hbegun.append (.cons hstep (.nil _)), ?_, hidle₂⟩
    simpa [completedWaits] using hcount

/-- What is seen of a call from its submission on. -/
structure Reported (operation : String) (log : List (Event α)) (s : Scene α) : Prop where
  name : s.call.operation = operation
  /-- A task comes to one end. -/
  once : ∀ outcome outcome', .ended outcome ∈ log → .ended outcome' ∈ log → outcome = outcome'
  /-- To ask is to be told whether it has. -/
  asked : ∀ before finished after, log = before ++ .asked finished :: after →
    (finished = true ↔ ∃ outcome, .ended outcome ∈ before)
  /-- So what is finished stays so. -/
  stays : ∀ before after finished, log = before ++ .asked true :: after →
    .asked finished ∈ after → finished = true
  /-- And it is, once a wait is over. -/
  waited : ∀ before poll after finished, log = before ++ .waitDone poll :: after →
    .asked finished ∈ after → finished = true
  /-- A poll of the join handle finds the end of the task, if it has come. -/
  found : ∀ before event after poll, log = before ++ event :: after →
    event.poll? = some poll → ∀ outcome, poll = some outcome ↔ .ended outcome ∈ before
  /-- A join handle that has given its outcome away is not polled again. -/
  polled : ∀ before event after outcome, log = before ++ event :: after →
    event.poll? = some (some outcome) → ∀ event' ∈ after, event'.poll? = none
  /-- The result is told as the task came to it, and told once. -/
  told : ∀ before poll result after, log = before ++ .resultDone poll result :: after →
    (∃ outcome, .ended outcome ∈ before ∧ result = outcome.result operation) ∧ after = []
  /-- After the end of the task a wait is over as soon as it is looked at. -/
  waits : ∀ outcome, .ended outcome ∈ log → s.holder = .waiting →
    ∃ s', Step s (.waitDone s.call.poll?) s'
  /-- And its result is there, however often it was waited for and without
  waiting again. -/
  tells : ∀ outcome, .ended outcome ∈ log → s.holder ≠ .gone →
    ∃ log' poll s', Steps s (log' ++ [.resultDone poll (outcome.result operation)]) s' ∧
      completedWaits log' = 0

/-- **A call reports its task's end, once and unchanged**, however the steps of
the task and of the holder fall. What is finished stays finished; a join handle
is not polled again after it has given away its outcome; and the result is what
the task came to, or says that it panicked or was cancelled. -/
theorem pending_call_reports {operation : String} {log : List (Event α)} {s : Scene α}
    (h : Steps (Scene.start operation) log s) : Reported operation log s ∧
      (∀ result : Except Failure α, (TaskOutcome.returned result).result operation = result) ∧
      (TaskOutcome.panicked : TaskOutcome α).result operation =
        .error (.generic (operation ++ " panicked") none) ∧
      (TaskOutcome.cancelled : TaskOutcome α).result operation =
        .error (.generic (operation ++ " was cancelled") none) where
  left :=
    { name := h.sound.name
      once := fun outcome outcome' hended hended' =>
        Option.some.inj ((h.task_start.2 hended).symm.trans (h.task_start.2 hended'))
      asked := by
        rintro before finished after rfl
        exact h.asked_iff
      stays := by
        rintro before after finished rfl hasked
        obtain ⟨outcome, hended⟩ := h.asked_iff.1 rfl
        rw [List.append_cons] at h
        exact h.asked_after ⟨outcome, List.mem_append_left _ hended⟩ hasked
      waited := by
        rintro before poll after finished rfl hasked
        obtain ⟨outcome, hended⟩ := h.waited
        rw [List.append_cons] at h
        exact h.asked_after ⟨outcome, List.mem_append_left _ hended⟩ hasked
      found := by
        rintro before event after poll rfl hpoll outcome
        exact h.poll_found hpoll
      polled := by
        rintro before event after outcome rfl hpoll
        obtain ⟨s₁, s₂, -, hstep, hafter⟩ := h.at_event
        exact (hstep.spent hpoll).steps hafter
      told := by
        rintro before poll result after rfl
        exact h.told
      waits := fun _ => h.wait_ends
      tells := fun _ => h.tells }
  right := ⟨fun _ => rfl, rfl, rfl⟩

/-- One wait is given up while the task runs, another finds that it panicked. -/
theorem pending_call_reports_panic :
    ∃ (log : List (Event Unit)) (s : Scene Unit), Steps (Scene.start "start_version") log s ∧
      log = [.waitBegun, .waitPolled (some none), .waitAbandoned, .asked false, .waitBegun,
        .ended .panicked, .waitDone (some (some .panicked)), .asked true, .resultBegun,
        .resultDone none (.error (.generic "start_version panicked" none))] ∧
      Reported "start_version" log s := by
  have waited : Steps (Scene.start "start_version" : Scene Unit)
      [.waitBegun, .waitPolled (some none), .waitAbandoned, .asked false]
      (Scene.start "start_version") :=
    .cons (.waitBegun rfl) <| .cons (.waitPolled rfl rfl) <| .cons (.waitAbandoned rfl) <|
      .cons (.asked nofun) (.nil _)
  have ended : Steps (Scene.start "start_version" : Scene Unit)
      [.waitBegun, .ended .panicked, .waitDone (some (some .panicked)), .asked true, .resultBegun,
        .resultDone none (.error (.generic "start_version panicked" none))] _ :=
    .cons (.waitBegun rfl) <| .cons (.ended rfl) <| .cons (.waitDone rfl rfl) <|
      .cons (.asked nofun) <| .cons (.resultBegun rfl) <| .cons (.resultDone rfl rfl) (.nil _)
  exact ⟨_, _, waited.append ended, rfl, (pending_call_reports (waited.append ended)).1⟩

end PendingCall
end ControlPlane
