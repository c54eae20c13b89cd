/-
Dialogues as they go with a server, which may answer as it likes and by all it
was asked before. `Reaches` tells the requests a dialogue has made and the
replies it has had at some moment, `Ends` how it comes to its outcome. Both
speak of the runs of `Dialogue.run` (`run_eq_iff`), without its bound on the
requests.
-/
import ControlPlane.Dialogue

namespace ControlPlane.Dialogue

variable {Req Rep α β ε ε' : Type}

/-- What a server replies to a request, by the requests it had before. -/
abbrev Server (Req Rep : Type) := List Req → Req → Rep

/-- The server once it has had the requests `past`. -/
def Server.after (server : Server Req Rep) (past : List Req) : Server Req Rep :=
  fun made request => server (past ++ made) request

theorem Server.after_append (server : Server Req Rep) (past past' : List Req) :
    (server.after past).after past' = server.after (past ++ past') := by
  funext made request
  simp only [after, List.append_assoc]

/-- At some moment the dialogue has made the requests `made` of the server and
has had the replies `received`. -/
inductive Reaches (server : Server Req Rep) (d : Dialogue Req Rep α) :
    List Req → List Rep → Prop
  | start : Reaches server d [] []
  | ask {made received request} : Reaches server d made received →
      d received = .error request →
      Reaches server d (made ++ [request]) (received ++ [server made request])

/-- With the requests `made` the dialogue comes to the outcome `a`. Replies
beyond those it asked for are left to whoever goes on. -/
def Ends (server : Server Req Rep) (d : Dialogue Req Rep α) (made : List Req) (a : α) : Prop :=
  ∃ received, Reaches server d made received ∧ ∀ more, d (received ++ more) = .ok (a, more)

/-- The outcome hangs on the replies used and on no later one. -/
def Steady (d : Dialogue Req Rep α) : Prop :=
  ∀ ⦃replies a rest⦄, d replies = .ok (a, rest) →
    ∃ used, replies = used ++ rest ∧ ∀ more, d (used ++ more) = .ok (a, more)

/-! ## Sequences -/

theorem bind_apply (d : Dialogue Req Rep α) (f : α → Dialogue Req Rep β) (replies : List Rep) :
    (d >>= f) replies = match d replies with
      | .error request => .error request
      | .ok (a, rest) => f a rest := by
  cases h : d replies <;> simp [bind, StateT.bind, Except.bind, h]

theorem run_bind_apply (x : ExceptT ε (Dialogue Req Rep) α)
    (f : α → ExceptT ε (Dialogue Req Rep) β) (replies : List Rep) :
    (x >>= f).run replies = match x.run replies with
      | .error request => .error request
      | .ok (.error e, rest) => .ok (.error e, rest)
      | .ok (.ok a, rest) => (f a).run rest := by
  rw [ExceptT.run_bind, bind_apply]
  cases h : x.run replies with
  | error => rfl
  | ok p => obtain ⟨_ | _, rest⟩ := p <;> rfl

theorem Steady.pure (a : α) : Steady (Pure.pure a : Dialogue Req Rep α) := by
  intro replies b rest h
  cases h
  exact ⟨[], rfl, fun _ => rfl⟩

theorem Steady.ask (request : Req) : Steady (Dialogue.ask request : Dialogue Req Rep Rep) := by
  intro replies reply rest h
  cases replies with
  | nil => cases h
  | cons first replies =>
    obtain ⟨rfl, rfl⟩ : first = reply ∧ replies = rest := by simpa [Dialogue.ask] using h
    exact ⟨[first], rfl, fun _ => rfl⟩

theorem Steady.bind {d : Dialogue Req Rep α} {f : α → Dialogue Req Rep β} (hd : Steady d)
    (hf : ∀ a, Steady (f a)) : Steady (d >>= f) := by
  intro replies b rest h
  rw [bind_apply] at h
  cases hr : d replies with
  | error => simp [hr] at h
  | ok p =>
    obtain ⟨a, mid⟩ := p
    simp only [hr] at h
    obtain ⟨used₁, rfl, h₁⟩ := hd hr
    obtain ⟨used₂, rfl, h₂⟩ := hf a h
    refine ⟨used₁ ++ used₂, by simp, fun more => ?_⟩
    rw [bind_apply, List.append_assoc, h₁, ← h₂]

theorem Steady.run_bind {x : ExceptT ε (Dialogue Req Rep) α}
    {f : α → ExceptT ε (Dialogue Req Rep) β} (hx : Steady x.run) (hf : ∀ a, Steady (f a).run) :
    Steady (x >>= f).run := by
  rw [ExceptT.run_bind]
  refine hx.bind fun r => ?_
  cases r with
  | ok a => exact hf a
  | error e => exact Steady.pure _

/-! ## Requests -/

/-- Whatever it hears, the dialogue makes no request but of the kind `P`. -/
def Asks (P : Req → Prop) (d : Dialogue Req Rep α) : Prop :=
  ∀ ⦃received request⦄, d received = .error request → P request

namespace Asks

variable {P : Req → Prop} {d : Dialogue Req Rep α}

theorem pure (a : α) : Asks P (Pure.pure a : Dialogue Req Rep α) := nofun

theorem ask {request : Req} (h : P request) : Asks P (Dialogue.ask request : Dialogue Req Rep Rep)
  | [], _, rfl => h

theorem mono {Q : Req → Prop} (hd : Asks P d) (h : ∀ request, P request → Q request) : Asks Q d :=
  fun _ request hask => h request (hd hask)

theorem bind {f : α → Dialogue Req Rep β} (hd : Asks P d) (hf : ∀ a, Asks P (f a)) :
    Asks P (d >>= f) := by
  intro received request hask
  rw [bind_apply] at hask
  cases hr : d received with
  | error asked =>
    obtain rfl : asked = request := by simpa [hr] using hask
    exact hd hr
  | ok p => exact hf p.1 (by simpa [hr] using hask)

theorem map (g : α → β) (hd : Asks P d) : Asks P (g <$> d) := by
  rw [map_eq_pure_bind]
  exact hd.bind fun _ => pure _

theorem run_bind {x : ExceptT ε (Dialogue Req Rep) α} {f : α → ExceptT ε (Dialogue Req Rep) β}
    (hx : Asks P x.run) (hf : ∀ a, Asks P (f a).run) : Asks P (x >>= f).run := by
  rw [ExceptT.run_bind]
  refine hx.bind fun r => ?_
  cases r with
  | ok a => exact hf a
  | error e => exact pure _

theorem run_map (g : α → β) {x : ExceptT ε (Dialogue Req Rep) α} (hx : Asks P x.run) :
    Asks P (g <$> x).run := by
  rw [ExceptT.run_map]
  exact hx.map _

/-- So all requests of a run are of that kind. -/
theorem made (h : Asks P d) {server : Server Req Rep} {made received}
    (hr : Reaches server d made received) : ∀ request ∈ made, P request := by
  induction hr with
  | start => simp
  | ask _ hask ih =>
    intro request hmem
    rcases List.mem_append.1 hmem with hmem | hmem
    · exact ih request hmem
    · obtain rfl := List.mem_singleton.1 hmem
      exact h hask

end Asks

/-! ## Outcomes -/

/-- Whatever it hears, the dialogue answers nothing but what is of the kind `P`. -/
def Gives (P : α → Prop) (x : ExceptT ε (Dialogue Req Rep) α) : Prop :=
  ∀ ⦃received a rest⦄, x.run received = .ok (.ok a, rest) → P a

namespace Gives

variable {P : α → Prop}

theorem decided {x : Except ε α} (h : ∀ a, x = .ok a → P a) :
    Gives P (ExceptT.mk (Pure.pure x) : ExceptT ε (Dialogue Req Rep) α) := by
  intro received a rest heq
  cases heq
  exact h a rfl

/-- What a sequence answers, its last part does. -/
theorem bind (x : ExceptT ε (Dialogue Req Rep) β) {f : β → ExceptT ε (Dialogue Req Rep) α}
    (hf : ∀ b, Gives P (f b)) : Gives P (x >>= f) := by
  intro received a rest heq
  rw [run_bind_apply] at heq
  split at heq
  · cases heq
  · cases heq
  · exact hf _ heq

/-- After a decision only what was decided need be looked at. -/
theorem decided_bind {x : Except ε β} {f : β → ExceptT ε (Dialogue Req Rep) α}
    (hf : ∀ b, x = .ok b → Gives P (f b)) : Gives P (ExceptT.mk (Pure.pure x) >>= f) := by
  intro received a rest heq
  rw [run_bind_apply] at heq
  cases x with
  | error => cases heq
  | ok b => exact hf b rfl heq

theorem map (g : α → β) {x : ExceptT ε (Dialogue Req Rep) α} (h : Gives P x) :
    Gives (fun b => ∃ a, P a ∧ g a = b) (g <$> x) := by
  intro received b rest heq
  rw [ExceptT.run_map, map_eq_pure_bind, bind_apply] at heq
  cases hx : x.run received with
  | error asked => rw [hx] at heq; cases heq
  | ok p =>
    obtain ⟨_ | a, rest'⟩ := p
    · rw [hx] at heq; cases heq
    · rw [hx] at heq
      cases heq
      exact ⟨a, h hx, rfl⟩

end Gives

/-! ## Ends -/

theorem Ends.pure (server : Server Req Rep) (a : α) : Ends server (Pure.pure a) [] a :=
  ⟨[], .start, fun _ => rfl⟩

/-- So an answer that a run ends with is of that kind. -/
theorem Gives.ends {P : α → Prop} {x : ExceptT ε (Dialogue Req Rep) α} (h : Gives P x)
    {server : Server Req Rep} {made a} (hends : Ends server x.run made (.ok a)) : P a := by
  obtain ⟨received, -, hdone⟩ := hends
  exact h (hdone [])

theorem Ends.ask (server : Server Req Rep) (request : Req) :
    Ends server (Dialogue.ask request) [request] (server [] request) :=
  ⟨[server [] request], .ask .start rfl, fun _ => rfl⟩

theorem Reaches.bind_left {server : Server Req Rep} {d : Dialogue Req Rep α}
    {f : α → Dialogue Req Rep β} {made received} (h : Reaches server d made received) :
    Reaches server (d >>= f) made received := by
  induction h with
  | start => exact .start
  | ask _ hask ih => exact .ask ih (by rw [bind_apply, hask])

theorem Reaches.bind_right {server : Server Req Rep} {d : Dialogue Req Rep α}
    {f : α → Dialogue Req Rep β} {made received a made' received'}
    (h : Reaches server d made received) (hd : ∀ more, d (received ++ more) = .ok (a, more))
    (h' : Reaches (server.after made) (f a) made' received') :
    Reaches server (d >>= f) (made ++ made') (received ++ received') := by
  induction h' with
  | start => simpa using h.bind_left
  | ask _ hask ih =>
    simp only [← List.append_assoc]
    refine .ask ih ?_
    rw [bind_apply, hd]
    exact hask

/-- A sequence ends as its second part does, once the first has ended. -/
theorem Ends.bind {server : Server Req Rep} {d : Dialogue Req Rep α}
    {f : α → Dialogue Req Rep β} {made a made' b} (h : Ends server d made a)
    (h' : Ends (server.after made) (f a) made' b) : Ends server (d >>= f) (made ++ made') b := by
  obtain ⟨received, hr, hd⟩ := h
  obtain ⟨received', hr', hf⟩ := h'
  refine ⟨_, hr.bind_right hd hr', fun more => ?_⟩
  rw [bind_apply, List.append_assoc, hd]
  exact hf more

theorem Ends.map {server : Server Req Rep} {d : Dialogue Req Rep α} {made a} (g : α → β)
    (h : Ends server d made a) : Ends server (g <$> d) made (g a) := by
  rw [map_eq_pure_bind, ← List.append_nil made]
  exact h.bind (Ends.pure _ _)

theorem Ends.run_map {server : Server Req Rep} {x : ExceptT ε (Dialogue Req Rep) α} {made r}
    (g : α → β) (h : Ends server x.run made r) : Ends server (g <$> x).run made (r.map g) := by
  rw [ExceptT.run_map]
  exact h.map (Except.map g)

theorem Ends.run_bind {server : Server Req Rep} {x : ExceptT ε (Dialogue Req Rep) α}
    {f : α → ExceptT ε (Dialogue Req Rep) β} {made a made' b} (h : Ends server x.run made (.ok a))
    (h' : Ends (server.after made) (f a).run made' b) :
    Ends server (x >>= f).run (made ++ made') b := by
  rw [ExceptT.run_bind]
  exact h.bind h'

/-- What follows a failure is not begun. -/
theorem Ends.run_bind_error {server : Server Req Rep} {x : ExceptT ε (Dialogue Req Rep) α}
    {f : α → ExceptT ε (Dialogue Req Rep) β} {made e} (h : Ends server x.run made (.error e)) :
    Ends server (x >>= f).run made (.error e) := by
  rw [ExceptT.run_bind, ← List.append_nil made]
  exact h.bind (Ends.pure _ _)

/-- A dialogue ends as the one it goes on with after its first reply. -/
theorem Ends.cons {server : Server Req Rep} {d : Dialogue Req Rep α} {d' : Dialogue Req Rep β}
    {g : β → α} {request made a} (hask : d [] = .error request)
    (hd : ∀ rest, d (server [] request :: rest) = (g <$> d') rest)
    (h : Ends (server.after [request]) d' made a) : Ends server d (request :: made) (g a) := by
  obtain ⟨received, hr, hmore⟩ := h.map g
  refine ⟨server [] request :: received, ?_, fun more => (hd _).trans (hmore more)⟩
  clear h hmore
  induction hr with
  | start => exact .ask .start hask
  | ask _ hask' ih => exact .ask ih ((hd _).trans hask')

/-! ## Runs -/

/-- A run that is carried on from where a dialogue has got to is the run from
the start, with a bound that counts the requests made. -/
theorem carryOn_of_reaches {server : Server Req Rep} {d : Dialogue Req Rep α} {made received}
    (h : Reaches server d made received) :
    ∀ fuel, carryOn server d (fuel + made.length) [] [] = carryOn server d fuel made received := by
  induction h with
  | start => intro fuel; rfl
  | @ask made received request _ hask ih =>
    intro fuel
    have hlen : fuel + (made ++ [request]).length = fuel + 1 + made.length := by simp; omega
    rw [hlen, ih, carryOn, hask]

/-- A run that may make no more requests than a dialogue has made has made those. -/
theorem Reaches.run_requests {server : Server Req Rep} {d : Dialogue Req Rep α} {made received}
    (h : Reaches server d made received) : (run server made.length [] d).requests = made := by
  have hrun : run server made.length [] d = carryOn server d 0 made received := by
    rw [← carryOn_of_reaches h 0, Nat.zero_add]
    rfl
  rw [hrun, carryOn]
  split <;> rfl

theorem carryOn_of_done {server : Server Req Rep} {d : Dialogue Req Rep α} {made received a rest}
    (h : d received = .ok (a, rest)) :
    ∀ fuel, carryOn server d fuel made received = ⟨made, some a⟩
  | 0 | _ + 1 => by rw [carryOn, h]

/-- With a bound that is no smaller than the number of its requests, a run is
the dialogue to its outcome. -/
theorem run_of_reaches {server : Server Req Rep} {d : Dialogue Req Rep α} {made received a rest}
    (h : Reaches server d made received) (hdone : d received = .ok (a, rest)) {fuel}
    (hfuel : made.length ≤ fuel) : run server fuel [] d = ⟨made, some a⟩ := by
  obtain ⟨fuel, rfl⟩ := Nat.exists_eq_add_of_le' hfuel
  exact (carryOn_of_reaches h fuel).trans (carryOn_of_done hdone fuel)

theorem Ends.run_eq {server : Server Req Rep} {d : Dialogue Req Rep α} {made a}
    (h : Ends server d made a) {fuel} (hfuel : made.length ≤ fuel) :
    run server fuel [] d = ⟨made, some a⟩ := by
  obtain ⟨received, hr, hd⟩ := h
  have hdone : d received = .ok (a, []) := by simpa using hd []
  exact run_of_reaches hr hdone hfuel

/-- A run that comes to an outcome has been where the dialogue does. -/
theorem reaches_of_carryOn {server : Server Req Rep} {d : Dialogue Req Rep α} {a made'} :
    ∀ {fuel made received}, Reaches server d made received →
      carryOn server d fuel made received = ⟨made', some a⟩ →
      ∃ received' rest, Reaches server d made' received' ∧ d received' = .ok (a, rest) ∧
        made'.length ≤ fuel + made.length
  | 0, made, received, h, hrun => by
    rw [carryOn] at hrun
    split at hrun
    · next hdone =>
      obtain ⟨rfl, rfl⟩ : made = made' ∧ _ = a := by simpa using hrun
      exact ⟨received, _, h, hdone, by omega⟩
    · simp at hrun
  | fuel + 1, made, received, h, hrun => by
    rw [carryOn] at hrun
    split at hrun
    · next hdone =>
      obtain ⟨rfl, rfl⟩ : made = made' ∧ _ = a := by simpa using hrun
      exact ⟨received, _, h, hdone, by omega⟩
    · next hask =>
      obtain ⟨received', rest, hr, hdone, hle⟩ := reaches_of_carryOn (.ask h hask) hrun
      simp only [List.length_append, List.length_singleton] at hle
      exact ⟨received', rest, hr, hdone, by omega⟩

/-- What a run comes to within some bound it comes to within any larger one. -/
theorem run_mono {server : Server Req Rep} {d : Dialogue Req Rep α} {made a fuel fuel'}
    (h : run server fuel [] d = ⟨made, some a⟩) (hfuel : fuel ≤ fuel') :
    run server fuel' [] d = ⟨made, some a⟩ := by
  obtain ⟨received, rest, hr, hdone, hle⟩ := reaches_of_carryOn .start h
  rw [List.length_nil] at hle
  exact run_of_reaches hr hdone (by omega)

theorem run_unique {server : Server Req Rep} {d : Dialogue Req Rep α} {made made' a a' fuel fuel'}
    (h : run server fuel [] d = ⟨made, some a⟩) (h' : run server fuel' [] d = ⟨made', some a'⟩) :
    made = made' ∧ a = a' := by
  have hrun := (run_mono h (Nat.le_max_left fuel fuel')).symm.trans
    (run_mono h' (Nat.le_max_right fuel fuel'))
  simpa using hrun

/-- A dialogue has one course with a server. -/
theorem Ends.unique {server : Server Req Rep} {d : Dialogue Req Rep α} {made made' a a'}
    (h : Ends server d made a) (h' : Ends server d made' a') : made = made' ∧ a = a' :=
  run_unique (h.run_eq (Nat.le_refl _)) (h'.run_eq (Nat.le_refl _))

/-- What is settled is settled by the last reply, so none is left over. -/
theorem Reaches.settled {server : Server Req Rep} {d : Dialogue Req Rep α} (hd : Steady d)
    {made received a rest} (h : Reaches server d made received)
    (hdone : d received = .ok (a, rest)) :
    rest = [] ∧ ∀ more, d (received ++ more) = .ok (a, more) := by
  obtain ⟨used, hused, hmore⟩ := hd hdone
  suffices hrest : rest = [] by
    subst hrest
    exact ⟨rfl, by simpa [hused] using hmore⟩
  cases h with
  | start => simp_all
  | ask _ hask =>
    rcases List.eq_nil_or_concat rest with rfl | ⟨rest, reply, rfl⟩
    · rfl
    · rw [List.concat_eq_append, ← List.append_assoc] at hused
      rw [(List.append_inj' hused rfl).1, hmore] at hask
      cases hask

theorem Reaches.ends {server : Server Req Rep} {d : Dialogue Req Rep α} (hd : Steady d)
    {made received a rest} (h : Reaches server d made received)
    (hdone : d received = .ok (a, rest)) : Ends server d made a :=
  ⟨received, h, (h.settled hd hdone).2⟩

/-- Up to any number of requests a dialogue has ended or asks for more. -/
theorem ends_or_asks {d : Dialogue Req Rep α} (hd : Steady d) (server : Server Req Rep) :
    ∀ count, (∃ made a, Ends server d made a ∧ made.length ≤ count) ∨
      ∃ made received request, Reaches server d made received ∧ made.length = count ∧
        d received = .error request
  | 0 => by
    cases hdone : d [] with
    | ok p => exact .inl ⟨[], p.1, Reaches.start.ends hd hdone, Nat.le_refl _⟩
    | error request => exact .inr ⟨[], [], request, .start, rfl, hdone⟩
  | count + 1 => by
    rcases ends_or_asks hd server count with
      ⟨made, a, h, hle⟩ | ⟨made, received, request, h, rfl, hask⟩
    · exact .inl ⟨made, a, h, Nat.le_succ_of_le hle⟩
    have hnext := h.ask hask
    cases hdone : d (received ++ [server made request]) with
    | ok p => exact .inl ⟨_, p.1, hnext.ends hd hdone, by simp⟩
    | error request' => exact .inr ⟨_, _, request', hnext, by simp, hdone⟩

/-- **Runs and ends.** A bounded run comes to an outcome exactly when the
dialogue ends with it within the bound, and makes the same requests. -/
theorem run_eq_iff {server : Server Req Rep} {d : Dialogue Req Rep α} (hd : Steady d)
    {fuel made a} :
    run server fuel [] d = ⟨made, some a⟩ ↔ Ends server d made a ∧ made.length ≤ fuel := by
  constructor
  · intro h
    obtain ⟨received, rest, hr, hdone, hle⟩ := reaches_of_carryOn .start h
    exact ⟨hr.ends hd hdone, hle⟩
  · rintro ⟨h, hfuel⟩
    exact h.run_eq hfuel

/-- A dialogue whose outcome is told in another way makes the same requests. -/
theorem run_map (server : Server Req Rep) (fuel : Nat) (past : List Req) (g : α → β)
    (d : Dialogue Req Rep α) : run server fuel past (g <$> d) =
      ⟨(run server fuel past d).requests, (run server fuel past d).outcome.map g⟩ := by
  have hcarryOn (server : Server Req Rep) (fuel : Nat) : ∀ made received,
      carryOn server (g <$> d) fuel made received =
        ⟨(carryOn server d fuel made received).requests,
          (carryOn server d fuel made received).outcome.map g⟩ := by
    induction fuel with
    | zero =>
      intro made received
      rw [carryOn, carryOn, map_eq_pure_bind, bind_apply]
      cases d received <;> rfl
    | succ fuel ih =>
      intro made received
      rw [carryOn, carryOn, map_eq_pure_bind, bind_apply, ← map_eq_pure_bind]
      cases d received with
      | ok => rfl
      | error request => exact ih _ _
  exact hcarryOn _ fuel [] []

/-! ## Outcomes -/

/-- The dialogue comes to the outcome `a`, in however many requests. -/
def Yields (server : Server Req Rep) (d : Dialogue Req Rep α) (a : α) : Prop :=
  ∃ made, Ends server d made a

/-- What a server replies does not hang on what it was asked before. -/
def Server.Forgetful (server : Server Req Rep) : Prop := ∀ past, server.after past = server

theorem Reaches.of_map {server : Server Req Rep} {d : Dialogue Req Rep α} {g : α → β}
    {made received} (h : Reaches server (g <$> d) made received) :
    Reaches server d made received := by
  induction h with
  | start => exact .start
  | @ask made received request _ hask ih =>
    refine .ask ih ?_
    rw [map_eq_pure_bind, bind_apply] at hask
    rcases hd : d received with asked | ⟨a, rest⟩ <;> rw [hd] at hask
    · exact congrArg Except.error (Except.error.inj hask)
    · cases hask

/-- A dialogue whose outcome is told in another way has come to one. -/
theorem Ends.of_map {server : Server Req Rep} {d : Dialogue Req Rep α} (hd : Steady d) {g : α → β}
    {made b} (h : Ends server (g <$> d) made b) : ∃ a, Ends server d made a ∧ g a = b := by
  obtain ⟨received, hr, hmore⟩ := h
  have hdone := hmore []
  rw [List.append_nil, map_eq_pure_bind, bind_apply] at hdone
  rcases ha : d received with asked | ⟨a, rest⟩ <;> rw [ha] at hdone
  · cases hdone
  · cases hdone
    exact ⟨a, hr.of_map.ends hd ha, rfl⟩

/-- Two dialogues that differ in how their requests are labelled come to the
same outcome, with a server that does not look at the labels. -/
theorem Ends.relabel {server : Server Req Rep} {d d' : Dialogue Req Rep α} {f : Req → Req}
    (hd : ∀ replies, d' replies = (d replies).mapError f)
    (hserver : ∀ past request, server (past.map f) (f request) = server past request) {made a}
    (h : Ends server d made a) : Ends server d' (made.map f) a := by
  obtain ⟨received, hr, hmore⟩ := h
  refine ⟨received, ?_, fun more => by rw [hd, hmore]; rfl⟩
  clear hmore
  induction hr with
  | start => exact .start
  | @ask made received request _ hask ih =>
    rw [List.map_append, ← hserver made request]
    exact .ask ih (by rw [hd, hask]; rfl)

/-! ## Parts of a run -/

/-- Within a sequence the first part goes on, or it has ended and the second
part does. -/
theorem Reaches.of_bind {server : Server Req Rep} {d : Dialogue Req Rep α}
    {f : α → Dialogue Req Rep β} (hd : Steady d) {made received}
    (h : Reaches server (d >>= f) made received) :
    Reaches server d made received ∨ ∃ made₁ received₁ a made₂ received₂,
      made = made₁ ++ made₂ ∧ received = received₁ ++ received₂ ∧
      Reaches server d made₁ received₁ ∧ (∀ more, d (received₁ ++ more) = .ok (a, more)) ∧
      Reaches (server.after made₁) (f a) made₂ received₂ := by
  induction h with
  | start => exact .inl .start
  | @ask made received request _ hask ih =>
    rw [bind_apply] at hask
    rcases ih with h | ⟨made₁, received₁, a, made₂, received₂, rfl, rfl, h, hdone, h'⟩
    · rcases hr : d received with asked | ⟨a, rest⟩
      · rw [hr] at hask
        cases hask
        exact .inl (.ask h hr)
      · obtain ⟨rfl, hdone⟩ := h.settled hd hr
        rw [hr] at hask
        have hstart : Reaches (server.after made) (f a) [] [] := .start
        have hfirst := hstart.ask hask
        rw [Server.after, List.append_nil] at hfirst
        exact .inr ⟨made, received, a, _, _, rfl, rfl, h, hdone, hfirst⟩
    · rw [hdone] at hask
      exact .inr ⟨made₁, received₁, a, _, _, List.append_assoc .., List.append_assoc .., h, hdone,
        h'.ask hask⟩

/-- A sequence that has ended did so part by part. -/
theorem Ends.of_bind {server : Server Req Rep} {d : Dialogue Req Rep α}
    {f : α → Dialogue Req Rep β} (hd : Steady d) {made b} (h : Ends server (d >>= f) made b) :
    ∃ a made₁ made₂, made = made₁ ++ made₂ ∧ Ends server d made₁ a ∧
      Ends (server.after made₁) (f a) made₂ b := by
  obtain ⟨received, hr, hmore⟩ := h
  rcases hr.of_bind hd with h | ⟨made₁, received₁, a, made₂, received₂, rfl, rfl, h, hdone, h'⟩
  · have hended := hmore []
    rw [List.append_nil, bind_apply] at hended
    rcases ha : d received with asked | ⟨a, rest⟩
    · rw [ha] at hended
      cases hended
    · obtain ⟨-, hdone⟩ := h.settled hd ha
      refine ⟨a, made, [], (List.append_nil _).symm, ⟨received, h, hdone⟩, [], .start,
        fun more => ?_⟩
      rw [← hmore more, bind_apply, hdone]
      rfl
  · refine ⟨a, made₁, made₂, rfl, ⟨received₁, h, hdone⟩, received₂, h', fun more => ?_⟩
    rw [← hmore more, bind_apply, List.append_assoc, hdone]

theorem Ends.of_run_bind {server : Server Req Rep} {x : ExceptT ε (Dialogue Req Rep) α}
    {f : α → ExceptT ε (Dialogue Req Rep) β} (hx : Steady x.run) {made} {b : Except ε β}
    (h : Ends server (x >>= f).run made b) :
    (∃ e, b = .error e ∧ Ends server x.run made (.error e)) ∨
      ∃ a made₁ made₂, made = made₁ ++ made₂ ∧ Ends server x.run made₁ (.ok a) ∧
        Ends (server.after made₁) (f a).run made₂ b := by
  rw [ExceptT.run_bind] at h
  obtain ⟨r, made₁, made₂, rfl, hr, h'⟩ := h.of_bind hx
  cases r with
  | ok a => exact .inr ⟨a, made₁, made₂, rfl, hr, h'⟩
  | error e =>
    obtain ⟨rfl, rfl⟩ := h'.unique (Ends.pure _ _)
    exact .inl ⟨e, rfl, by rwa [List.append_nil]⟩

/-- Where a sequence ends with a decision, the first part made all requests. -/
theorem Ends.of_run_decided {server : Server Req Rep} {x : ExceptT ε (Dialogue Req Rep) α}
    {g : α → Except ε β} (hx : Steady x.run) {made} {b : Except ε β}
    (h : Ends server (x >>= fun a => ExceptT.mk (Pure.pure (g a))).run made b) :
    (∃ e, b = .error e ∧ Ends server x.run made (.error e)) ∨
      ∃ a, b = g a ∧ Ends server x.run made (.ok a) := by
  rcases h.of_run_bind hx with hfails | ⟨a, made₁, made₂, rfl, ha, h⟩
  · exact .inl hfails
  · obtain ⟨rfl, rfl⟩ := h.unique (Ends.pure _ _)
    exact .inr ⟨a, rfl, by rwa [List.append_nil]⟩

theorem Ends.of_run_map {server : Server Req Rep} {x : ExceptT ε (Dialogue Req Rep) α} {g : α → β}
    (hx : Steady x.run) {made} {b : Except ε β} (h : Ends server (g <$> x).run made b) :
    ∃ r, Ends server x.run made r ∧ r.map g = b := by
  rw [ExceptT.run_map] at h
  exact h.of_map hx

theorem Ends.of_adapt {server : Server Req Rep} {x : ExceptT ε (Dialogue Req Rep) α} {g : ε → ε'}
    (hx : Steady x.run) {made} {b : Except ε' α} (h : Ends server (x.adapt g).run made b) :
    ∃ r, Ends server x.run made r ∧ r.mapError g = b :=
  Ends.of_map hx h

/-- A run has been where each stretch of its requests ends, and asked there for
the next one. -/
theorem Reaches.of_append {server : Server Req Rep} {d : Dialogue Req Rep α} {made received}
    (h : Reaches server d made received) {before request after}
    (hmade : made = before ++ request :: after) :
    ∃ received', Reaches server d before received' ∧ d received' = .error request := by
  induction h generalizing after with
  | start => simp at hmade
  | ask h hask ih =>
    rcases List.eq_nil_or_concat after with rfl | ⟨after, last, rfl⟩
    · obtain ⟨rfl, hlast⟩ := List.append_inj' hmade rfl
      cases hlast
      exact ⟨_, h, hask⟩
    · rw [List.concat_eq_append, ← List.cons_append, ← List.append_assoc] at hmade
      exact ih (List.append_inj' hmade rfl).1

/-- The first request is one that is made before anything is heard. -/
theorem Ends.asks {server : Server Req Rep} {d : Dialogue Req Rep α} {request made a}
    (h : Ends server d (request :: made) a) : d [] = .error request := by
  obtain ⟨received, hr, -⟩ := h
  obtain ⟨received', hr', hask⟩ := hr.of_append (List.nil_append _).symm
  generalize hnil : ([] : List Req) = before at hr'
  cases hr' with
  | start => exact hask
  | ask _ _ => simp at hnil

namespace Yields

variable {server : Server Req Rep} {d : Dialogue Req Rep α} {a : α}

theorem pure (server : Server Req Rep) (a : α) : Yields server (Pure.pure a) a :=
  ⟨[], Ends.pure _ _⟩

theorem map (g : α → β) : Yields server d a → Yields server (g <$> d) (g a) :=
  fun ⟨_, h⟩ => ⟨_, h.map g⟩

theorem unique {a' : α} : Yields server d a → Yields server d a' → a = a' :=
  fun ⟨_, h⟩ ⟨_, h'⟩ => (h.unique h').2

theorem of_map (hd : Steady d) {g : α → β} {b : β} :
    Yields server (g <$> d) b → ∃ a, Yields server d a ∧ g a = b :=
  fun ⟨_, h⟩ => let ⟨a, ha, hb⟩ := h.of_map hd; ⟨a, ⟨_, ha⟩, hb⟩

theorem run_bind (hs : server.Forgetful) {x : ExceptT ε (Dialogue Req Rep) α}
    {f : α → ExceptT ε (Dialogue Req Rep) β} {b : Except ε β} :
    Yields server x.run (.ok a) → Yields server (f a).run b → Yields server (x >>= f).run b
  | ⟨made, h⟩, ⟨made', h'⟩ => ⟨made ++ made', h.run_bind (by rwa [hs made])⟩

theorem run_bind_error {x : ExceptT ε (Dialogue Req Rep) α} {f : α → ExceptT ε (Dialogue Req Rep) β}
    {e : ε} : Yields server x.run (.error e) → Yields server (x >>= f).run (.error e) :=
  fun ⟨_, h⟩ => ⟨_, h.run_bind_error⟩

end Yields

end ControlPlane.Dialogue
