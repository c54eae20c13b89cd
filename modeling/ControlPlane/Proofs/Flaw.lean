/-
Flawed replies of the admin API. A reply is flawed if it is a fault, or if its
body cannot be read as what was asked for; either ends a call there, with the
failure that the fault is classified as.
-/
import ControlPlane.Proofs.Agreement
import ControlPlane.Proofs.Calls
import ControlPlane.Proofs.Resource

namespace ControlPlane

open Dialogue Exchange

/-- What is missing when a resource is not found that a call asks for. -/
def Backend.Call.missing : Backend.Call → Missing
  | .listModules => .project
  | .listVersions _ | .defaultVersion _ | .instanceCount _ _ | .hostname _ => .module
  | .setInstanceCount _ _ _ | .setServingStatus _ _ _ => .version

namespace Admin

variable {α β : Type} {project caller : String}

/-! ## Flawed replies -/

/-- Whether a body can be read as the resource. That of a change is not looked
into. -/
def Resource.reads (body : Bytes) : Resource → Bool
  | application => (decode? defaultHostname? body).isSome
  | services _ => (decode? servicesPage? body).isSome
  | service _ => (decode? Service.ofJson? body).isSome
  | versions _ _ => (decode? versionsPage? body).isSome
  | version _ _ => (decode? (VersionReply.ofJson? 1) body).isSome
  | patch _ _ _ => true

/-- What is wrong with a reply: it is a fault, or its body cannot be read as
what was asked for. -/
def flaw : Flaw
  | _, .error fault => some fault
  | .get path _, .ok body =>
    match Resource.read? path with
    | some (_, r) => if r.reads body then none else some (undecodable path)
    | none => none
  | _, .ok _ => none

theorem flaw_error (request : Request) (fault : Fault) :
    flaw request (.error fault) = some fault := by
  cases request <;> rfl

theorem flaw_get (r : Resource) (body : Bytes) :
    flaw (.get (r.path project).write caller) (.ok body) =
      if r.reads body then none else some (undecodable (r.path project).write) := by
  simp only [flaw, Resource.read?_write]

/-- The resource is what `reply?` reads. -/
def Resource.ReadBy (reply? : Json → Option α) (r : Resource) : Prop :=
  ∀ body, r.reads body = (decode? reply? body).isSome

/-- A body is flawed for a page of the listing when it cannot be read as one. -/
def Listing.FlawedUnread (l : Listing α) : Prop :=
  ∀ token body, flaw (l.request token) (.ok body) =
    if (decode? l.page? body).isSome then none else some (undecodable (l.path token))

/-- The flaws of a read are what it fails with. -/
theorem fetched_of_flaw {reply? : Json → Option α} {r : Resource} {reply : Reply}
    (hreads : r.ReadBy reply?) :
    (∀ fault, flaw (.get (r.path project).write caller) reply = some fault →
      fetched reply? (r.path project).write reply = .error fault) ∧
    (flaw (.get (r.path project).write caller) reply = none →
      ∃ a, fetched reply? (r.path project).write reply = .ok a) := by
  rcases reply with fault | body
  · simp [flaw_error, fetched]
  · rw [flaw_get, hreads, fetched]
    cases decode? reply? body <;> simp

theorem fetch_failsAtFlaw {reply? : Json → Option α} {r : Resource} (hreads : r.ReadBy reply?) :
    FailsAtFlaw flaw id (fetch reply? (r.path project).write caller) where
  steady := (fetch_failsAs _ _ _).steady
  stops := by
    intro received request hask reply fault hflaw
    cases received with
    | nil =>
      cases hask
      rw [List.nil_append, fetch_run_cons, (fetched_of_flaw hreads).1 fault hflaw]
      rfl
    | cons => rw [fetch_run_cons] at hask; cases hask

theorem walk_failsAtFlaw {l : Listing α} (hunread : l.FlawedUnread) :
    FailsAtFlaw flaw id l.walk where
  steady := l.walk_steady
  stops := by
    intro received request hask reply fault h
    obtain ⟨items, tokens, hw⟩ := Listing.walking_of_asks hask
    cases hw.asks.symm.trans hask
    rcases reply with fault' | body
    · rw [flaw_error] at h
      cases h
      exact hw.fault fault []
    · rw [hunread] at h
      cases hpage : decode? l.page? body with
      | none =>
        rw [hpage] at h
        cases h
        exact hw.undecodable hpage []
      | some page => rw [hpage] at h; cases h

theorem servicesListing_flawedUnread (project caller : String) :
    (servicesListing project caller).FlawedUnread :=
  fun token => flaw_get (.services token)

theorem versionsListing_flawedUnread (project module caller : String) :
    (versionsListing project module caller).FlawedUnread :=
  fun token => flaw_get (.versions module token)

theorem names_failsAtFlaw {l : Listing α} (hunread : l.FlawedUnread) (name : α → String)
    (missing : Missing) : FailsAtFlaw flaw (Fault.classify missing)
      (ExceptT.adapt (Fault.classify missing) do pure ((← l.walk).map name)) :=
  .adapt _ (.bind (walk_failsAtFlaw hunread) fun _ => .decided (.ok _))

theorem patch_failsAtFlaw (project module version : String) (change : Patch) (caller : String) :
    FailsAtFlaw flaw (Fault.classify .version) (patch project module version change caller) := by
  refine .adapt _ (.bind (.send fun {reply fault} h => ?_) fun _ => .decided (.ok _))
  cases reply <;> cases h
  rfl

theorem hostname_failsAtFlaw (project : String) (q : HostnameQuery) :
    FailsAtFlaw flaw (Fault.classify .module) (hostname project q) := by
  refine HostnameQuery.resolve_closed
    (P := fun x => FailsAtFlaw flaw (Fault.classify .module) x)
    (fun x => .decided x) (fun _ _ => .bind) _ _ ?_ ?_ ?_ ?_
  · exact names_failsAtFlaw (servicesListing_flawedUnread _ _) _ _
  · exact .adapt _ (.bind (fetch_failsAtFlaw (r := .application) fun _ => rfl) fun _ => .decided _)
  · exact names_failsAtFlaw (versionsListing_flawedUnread _ _ _) _ _
  · exact fun name => .adapt _ (.bind
      (fetch_failsAtFlaw (r := .version q.module name) fun _ => rfl) fun _ => .decided (.ok _))

/-! ## Calls -/

/-- Whatever a call asks for next, a flawed reply ends it. -/
theorem perform_failsAtFlaw (project : String) (call : Backend.Call) :
    FailsAtFlaw flaw (Fault.classify call.missing) ((backend project).perform call) := by
  cases call with
  | listModules => exact .map _ (names_failsAtFlaw (servicesListing_flawedUnread _ _) _ _)
  | listVersions => exact .map _ (names_failsAtFlaw (versionsListing_flawedUnread _ _ _) _ _)
  | defaultVersion module =>
    exact .map _ (.bind (.adapt _ (fetch_failsAtFlaw (r := .service module) fun _ => rfl))
      fun _ => .decided _)
  | instanceCount module version =>
    exact .map _ (.bind (.adapt _ (fetch_failsAtFlaw (r := .version module version) fun _ => rfl))
      fun _ => .decided _)
  | setInstanceCount => exact .map _ (patch_failsAtFlaw _ _ _ _ _)
  | setServingStatus => exact .map _ (patch_failsAtFlaw _ _ _ _ _)
  | hostname => exact .map _ (hostname_failsAtFlaw _ _)

end Admin
end ControlPlane
