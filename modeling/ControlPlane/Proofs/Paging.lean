/-
Listings that are cut into pages. A `Cut` is a way of cutting a list, with a
token for every page but the first; a server that serves it answers the
requests of the pages and leaves everything else open. The walk puts the list
together again, and what an operation comes to does not show how its listings
are cut: the dialogue with a server of pages is that with a server of whole
lists, with each request for a list replaced by those for its pages.
-/
import ControlPlane.Proofs.Hostname
import ControlPlane.Proofs.Listing
import Mathlib

namespace ControlPlane.Admin

open Dialogue

variable {α β ε ε' : Type}

/-! ## Cuts -/

/-- A body that is read as a page. That there is no further one it may say by an
empty token, too. -/
def Shows (page? : Json → Option (Page α)) (body : Bytes) (page : Page α) : Prop :=
  ∃ shown, decode? page? body = some shown ∧ shown.items = page.items ∧
    shown.next.filter (· ≠ "") = page.next

/-- A way of cutting a list into pages: the pages before the last, each with
the token of the page after it, and the last. -/
structure Cut (α : Type) where
  front : List (List α × String)
  last : List α
  named : "" ∉ front.map Prod.snd
  distinct : (front.map Prod.snd).Nodup

namespace Cut

/-- The list that is cut. -/
def items (c : Cut α) : List α := c.front.flatMap Prod.fst ++ c.last

def tokens (c : Cut α) : List String := c.front.map Prod.snd

/-- The list on a single page. -/
def whole (c : Cut α) : Cut α := ⟨[], c.items, by simp, by simp⟩

/-- The pages from the one that `token` leads to on. -/
def pagesFrom (token : Option String) (last : List α) :
    List (List α × String) → List (Option String × Page α)
  | [] => [(token, ⟨last, none⟩)]
  | (items, next) :: front => (token, ⟨items, some next⟩) :: pagesFrom (some next) last front

/-- The pages in order, each with the token that leads to it. -/
def pages (c : Cut α) : List (Option String × Page α) := pagesFrom none c.last c.front

/-- The requests for the pages, in order. -/
def requests (c : Cut α) (l : Listing α) : List Request :=
  (none :: c.tokens.map some).map l.request

/-- A server that answers the request for each page with a body of that page,
whatever it was asked before. -/
def Serves (c : Cut α) (l : Listing α) (server : Server Request Reply) : Prop :=
  ∀ past, ∀ p ∈ c.pages, ∃ body, server past (l.request p.1) = .ok body ∧ Shows l.page? body p.2

/-! ## The walk -/

variable {l : Listing α}

theorem walkFrom_ends_last {server : Server Request Reply} {token seen body page}
    (hreply : server [] (l.request token) = .ok body) (hpage : decode? l.page? body = some page)
    (hnext : page.next.filter (· ≠ "") = none) :
    Ends server (l.walkFrom token seen).run [l.request token] (.ok page.items) := by
  refine ⟨[.ok body], ?_, fun more => Listing.go_last hpage hnext⟩
  rw [← hreply]
  exact .ask .start rfl

theorem walkFrom_ends_page {server : Server Request Reply} {token seen body page next made items}
    (hreply : server [] (l.request token) = .ok body) (hpage : decode? l.page? body = some page)
    (hnext : page.next.filter (· ≠ "") = some next) (hnew : next ∉ seen)
    (h : Ends (server.after [l.request token]) (l.walkFrom (some next) (next :: seen)).run made
      (.ok items)) :
    Ends server (l.walkFrom token seen).run (l.request token :: made)
      (.ok (page.items ++ items)) := by
  have hask : (l.walkFrom token seen).run [] = .error (l.request token) := rfl
  refine Ends.cons (g := Except.map (page.items ++ ·)) hask (fun rest => ?_) h
  rw [hreply]
  exact (Listing.go_page hpage hnext hnew).trans (Listing.ahead_eq_map _ _ _)

/-- By induction on the pages: no token still to come has been followed yet. -/
theorem walkFrom_ends (last : List α) : ∀ (front : List (List α × String)) server token seen,
    (∀ past, ∀ p ∈ pagesFrom token last front,
      ∃ body, server past (l.request p.1) = .ok body ∧ Shows l.page? body p.2) →
    (front.map Prod.snd).Nodup → (∀ t ∈ front.map Prod.snd, t ∉ seen) →
    Ends server (l.walkFrom token seen).run
      ((token :: (front.map Prod.snd).map some).map l.request)
      (.ok (front.flatMap Prod.fst ++ last))
  | [], server, token, seen, hserves, _, _ => by
    obtain ⟨body, hreply, page, hpage, hitems, hnext⟩ := hserves [] _ List.mem_cons_self
    have hlast : Ends server (l.walkFrom token seen).run [l.request token] (.ok page.items) :=
      walkFrom_ends_last hreply hpage hnext
    rw [hitems] at hlast
    exact hlast
  | (items, next) :: front, server, token, seen, hserves, hnodup, hnew => by
    obtain ⟨body, hreply, page, hpage, hitems, hnext⟩ := hserves [] _ List.mem_cons_self
    have hne : next ∉ seen := hnew next (by simp)
    simp only [List.map_cons, List.nodup_cons] at hnodup
    have hfresh : ∀ t ∈ front.map Prod.snd, t ∉ next :: seen := by
      intro t ht
      rw [List.mem_cons, not_or]
      exact ⟨fun he => hnodup.1 (he ▸ ht), hnew t (List.mem_cons_of_mem _ ht)⟩
    have hrest := walkFrom_ends last front (server.after [l.request token]) (some next)
      (next :: seen) (fun past p hp => hserves _ p (List.mem_cons_of_mem _ hp)) hnodup.2 hfresh
    have hfirst := walkFrom_ends_page hreply hpage hnext hne hrest
    rw [hitems, ← List.append_assoc] at hfirst
    exact hfirst

/-- The walk through a listing that is served in pages makes the requests for
the pages, in order, and has the list. -/
theorem walk_ends {c : Cut α} {server : Server Request Reply} (h : c.Serves l server) :
    Ends server l.walk.run (c.requests l) (.ok c.items) :=
  walkFrom_ends c.last c.front server none [] h c.distinct fun _ _ => List.not_mem_nil

end Cut

theorem listModules_ends {project : String} {c : Cut Service} {server : Server Request Reply}
    (h : c.Serves (servicesListing project "get_modules") server) :
    Ends server (listModules project).run (c.requests (servicesListing project "get_modules"))
      (.ok (c.items.map Service.id)) := by
  have hnames := (Cut.walk_ends h).run_bind (f := fun services => pure (services.map Service.id))
    (Ends.pure _ _)
  rw [List.append_nil] at hnames
  exact hnames.map (Except.mapError (Fault.classify .project))

theorem listVersions_ends {project module : String} {c : Cut VersionReply}
    {server : Server Request Reply}
    (h : c.Serves (versionsListing project module "get_versions") server) :
    Ends server (listVersions project module).run
      (c.requests (versionsListing project module "get_versions"))
      (.ok (c.items.map VersionReply.id)) := by
  have hnames := (Cut.walk_ends h).run_bind
    (f := fun versions => pure (versions.map VersionReply.id)) (Ends.pure _ _)
  rw [List.append_nil] at hnames
  exact hnames.map (Except.mapError (Fault.classify .module))

/-! ## Deliveries -/

theorem segments_page (p : Path) (token : Option String) :
    (p.page token).segments = p.segments := by
  cases token <;> rfl

/-- The pages of the two listings have paths of their own. -/
theorem services_ne_versions (project module : String) (token token' : Option String) :
    ((Path.services project).page token).write ≠
      ((Path.versions project module).page token').write := by
  intro h
  have := Path.segments_inj (by simp [segments_page, Path.services])
    (by simp [segments_page, Path.versions]) h
  simp [segments_page, Path.services, Path.versions] at this

/-- What a server of a project answers about a module of it: how the services
and the versions of the module are cut, and all other replies. -/
structure Delivery where
  project : String
  module : String
  services : Cut Service
  versions : Cut VersionReply
  other : Request → Reply

namespace Delivery

/-- The same lists, each on a single page. -/
def whole (D : Delivery) : Delivery :=
  { D with services := D.services.whole, versions := D.versions.whole }

/-- A server that delivers so, whoever asks and whatever it was asked before. -/
structure By (D : Delivery) (server : Server Request Reply) : Prop where
  services : ∀ caller, D.services.Serves (servicesListing D.project caller) server
  versions : ∀ caller, D.versions.Serves (versionsListing D.project D.module caller) server
  application : ∀ past caller, server past (.get (Path.application D.project).write caller) =
    D.other (.get (Path.application D.project).write caller)
  version : ∀ past version caller,
    server past (.get (Path.version D.project D.module version).write caller) =
      D.other (.get (Path.version D.project D.module version).write caller)

/-- The requests that take the place of one when lists come in pages. -/
def expand (D : Delivery) : Request → List Request
  | .get path caller =>
    if path = (Path.services D.project).write then
      D.services.requests (servicesListing D.project caller)
    else if path = (Path.versions D.project D.module).write then
      D.versions.requests (versionsListing D.project D.module caller)
    else [.get path caller]
  | request => [request]

/-- The exchange does not tell how lists are cut: with a server of pages it
comes to what it comes to with one of whole lists, by the requests that take
the place of those made there. -/
def Hides (D : Delivery) (x : ExceptT ε Exchange α) : Prop :=
  ∀ ⦃paged single⦄, D.By paged → D.whole.By single →
    ∃ made a, Ends single x.run made a ∧ Ends paged x.run (made.flatMap D.expand) a

variable {D : Delivery}

/-! ### Requests -/

theorem expand_services (caller : String) :
    D.expand ((servicesListing D.project caller).request none) =
      D.services.requests (servicesListing D.project caller) := by
  have hbase : (servicesListing D.project caller).request none =
      .get (Path.services D.project).write caller := rfl
  rw [hbase, expand, if_pos rfl]

theorem expand_versions (caller : String) :
    D.expand ((versionsListing D.project D.module caller).request none) =
      D.versions.requests (versionsListing D.project D.module caller) := by
  have hbase : (versionsListing D.project D.module caller).request none =
      .get (Path.versions D.project D.module).write caller := rfl
  have hne : (Path.versions D.project D.module).write ≠ (Path.services D.project).write := by
    intro h
    have := Path.segments_inj (by simp [Path.versions]) (by simp [Path.services]) h
    simp [Path.versions, Path.services] at this
  rw [hbase, expand, if_neg hne, if_pos rfl]

/-- What is no list is asked for as before. -/
theorem expand_get {p : Path} (caller : String) (hne : p.segments ≠ [])
    (hservices : p.segments ≠ (Path.services D.project).segments)
    (hversions : p.segments ≠ (Path.versions D.project D.module).segments) :
    D.expand (.get p.write caller) = [.get p.write caller] := by
  refine (if_neg fun h => ?_).trans (if_neg fun h => ?_)
  · exact hservices (Path.segments_inj hne (by simp [Path.services]) h)
  · exact hversions (Path.segments_inj hne (by simp [Path.versions]) h)

theorem requests_nodup (D : Delivery) (caller caller' : String) :
    (D.services.requests (servicesListing D.project caller) ++
      D.versions.requests (versionsListing D.project D.module caller')).Nodup := by
  refine List.Nodup.append (Listing.requests_nodup D.services.distinct)
    (Listing.requests_nodup D.versions.distinct) ?_
  intro request hs hv
  obtain ⟨token, -, rfl⟩ := List.mem_map.1 hs
  obtain ⟨token', -, h⟩ := List.mem_map.1 hv
  exact services_ne_versions _ _ _ _ (Request.get.inj h).1.symm

/-! ### Hiding the pages -/

theorem By.after {server : Server Request Reply} (h : D.By server) (past : List Request) :
    D.By (server.after past) where
  services caller more p hp := h.services caller (past ++ more) p hp
  versions caller more p hp := h.versions caller (past ++ more) p hp
  application more := h.application (past ++ more)
  version more := h.version (past ++ more)

namespace Hides

theorem decided (a : Except ε α) : D.Hides (ExceptT.mk (pure a)) :=
  fun _ _ _ _ => ⟨[], a, Ends.pure _ a, Ends.pure _ a⟩

theorem bind {x : ExceptT ε Exchange α} {f : α → ExceptT ε Exchange β} (hx : D.Hides x)
    (hf : ∀ a, D.Hides (f a)) : D.Hides (x >>= f) := by
  intro paged single hpaged hsingle
  obtain ⟨made, a, hs, hp⟩ := hx hpaged hsingle
  cases a with
  | error e => exact ⟨made, .error e, hs.run_bind_error, hp.run_bind_error⟩
  | ok a =>
    obtain ⟨made', b, hs', hp'⟩ := hf a (hpaged.after _) (hsingle.after made)
    refine ⟨made ++ made', b, hs.run_bind hs', ?_⟩
    rw [List.flatMap_append]
    exact hp.run_bind hp'

theorem adapt {x : ExceptT ε Exchange α} (g : ε → ε') (h : D.Hides x) : D.Hides (x.adapt g) := by
  intro paged single hpaged hsingle
  obtain ⟨made, a, hs, hp⟩ := h hpaged hsingle
  exact ⟨made, _, hs.map (Except.mapError g), hp.map (Except.mapError g)⟩

theorem services (caller : String) : D.Hides (Admin.services D.project caller) := by
  intro paged single hpaged hsingle
  refine ⟨[(servicesListing D.project caller).request none], .ok D.services.items,
    Cut.walk_ends (hsingle.services caller), ?_⟩
  rw [List.flatMap_singleton, expand_services]
  exact Cut.walk_ends (hpaged.services caller)

theorem versions (caller : String) : D.Hides (Admin.versions D.project D.module caller) := by
  intro paged single hpaged hsingle
  refine ⟨[(versionsListing D.project D.module caller).request none], .ok D.versions.items,
    Cut.walk_ends (hsingle.versions caller), ?_⟩
  rw [List.flatMap_singleton, expand_versions]
  exact Cut.walk_ends (hpaged.versions caller)

theorem fetch {reply? : Json → Option α} {path caller : String}
    (hpaged : ∀ server, D.By server →
      ∀ past, server past (.get path caller) = D.other (.get path caller))
    (hsingle : ∀ server, D.whole.By server →
      ∀ past, server past (.get path caller) = D.other (.get path caller))
    (hexpand : D.expand (.get path caller) = [.get path caller]) :
    D.Hides (Admin.fetch reply? path caller) := by
  refine bind (fun paged single hp hs => ?_) fun body => ?_
  · refine ⟨[.get path caller], D.other (.get path caller), ?_, ?_⟩
    · rw [← hsingle single hs []]
      exact Ends.ask single _
    · rw [← hpaged paged hp [], List.flatMap_singleton, hexpand]
      exact Ends.ask paged _
  · cases decode? reply? body with
    | some reply => exact decided (.ok reply)
    | none => exact decided (.error _)

theorem application {reply? : Json → Option α} (caller : String) :
    D.Hides (Admin.fetch reply? (Path.application D.project).write caller) :=
  fetch (fun _ h past => h.application past caller) (fun _ h past => h.application past caller)
    (expand_get caller (by simp [Path.application]) (by simp [Path.application, Path.services])
      (by simp [Path.application, Path.versions]))

theorem version (version caller : String) :
    D.Hides (Admin.version D.project D.module version caller) :=
  fetch (fun _ h past => h.version past version caller)
    (fun _ h past => h.version past version caller)
    (expand_get caller (by simp [Path.version, Path.versionSegments])
      (by simp [Path.version, Path.versionSegments, Path.services])
      (by simp [Path.version, Path.versionSegments, Path.versions]))

theorem hostname (selector : VersionSelector) (index : Option UInt32) :
    D.Hides (Admin.hostname D.project ⟨D.module, selector, index⟩) := by
  refine HostnameQuery.resolve_closed (P := fun x => D.Hides x) decided (fun _ _ => bind) _ _
    ?_ ?_ ?_ ?_
  · exact .adapt _ (.bind (services _) fun _ => decided (.ok _))
  · exact .adapt _ (.bind (application _) fun _ => decided _)
  · exact .adapt _ (.bind (versions _) fun _ => decided (.ok _))
  · exact fun v => .adapt _ (.bind (version v _) fun _ => decided (.ok _))

end Hides
end Delivery

/-! ## Servers -/

namespace Cut

theorem mem_tokens_of_mem_pages {c : Cut α} {p : Option String × Page α} (h : p ∈ c.pages) :
    p.1 ∈ none :: c.tokens.map some := by
  suffices hfrom : ∀ (front : List (List α × String)) (token : Option String),
      p ∈ pagesFrom token c.last front → p.1 ∈ token :: (front.map Prod.snd).map some from
    hfrom c.front none h
  intro front
  induction front with
  | nil =>
    intro token hp
    obtain rfl := List.mem_singleton.1 hp
    exact List.mem_cons_self
  | cons first front ih =>
    intro token hp
    rcases List.mem_cons.1 hp with rfl | hp
    · exact List.mem_cons_self
    · exact List.mem_cons_of_mem _ (ih _ hp)

/-- The token that leads to the page at a path, if one of the listing's does. -/
def token? (c : Cut α) (base : Path) (path : String) : Option (Option String) :=
  (none :: c.tokens.map some).find? fun token => (base.page token).write = path

theorem token?_page {c : Cut α} {base : Path} {token : Option String}
    (h : token ∈ none :: c.tokens.map some) :
    c.token? base (base.page token).write = some token := by
  cases hfind : c.token? base (base.page token).write with
  | none => exact absurd (List.find?_eq_none.1 hfind token h) (by simp)
  | some found => rw [Path.page_inj (of_decide_eq_true (List.find?_some hfind :))]

theorem token?_eq_none {c : Cut α} {base : Path} {path : String}
    (h : ∀ token, (base.page token).write ≠ path) : c.token? base path = none := by
  simp [token?, h]

end Cut

namespace Delivery

/-- A server that keeps to a delivery, with the body of each page by its token. -/
def server (D : Delivery) (serviceBody versionBody : Option String → Bytes) :
    Server Request Reply := fun _ request =>
  match request with
  | .get path _ =>
    match D.services.token? (Path.services D.project) path,
      D.versions.token? (Path.versions D.project D.module) path with
    | some token, _ => .ok (serviceBody token)
    | none, some token => .ok (versionBody token)
    | none, none => D.other request
  | _ => D.other request

theorem server_other {D : Delivery} {serviceBody versionBody : Option String → Bytes} {p : Path}
    (hne : p.segments ≠ []) (hservices : (Path.services D.project).segments ≠ p.segments)
    (hversions : (Path.versions D.project D.module).segments ≠ p.segments)
    (past : List Request) (caller : String) :
    D.server serviceBody versionBody past (.get p.write caller) =
      D.other (.get p.write caller) := by
  have hs : D.services.token? (Path.services D.project) p.write = none :=
    Cut.token?_eq_none fun token h => hservices (segments_page _ token ▸ Path.segments_inj
      (by simp [segments_page, Path.services]) hne h)
  have hv : D.versions.token? (Path.versions D.project D.module) p.write = none :=
    Cut.token?_eq_none fun token h => hversions (segments_page _ token ▸ Path.segments_inj
      (by simp [segments_page, Path.versions]) hne h)
  simp only [server, hs, hv]

/-- Whatever the tokens, the paths of the pages do not collide, so every
delivery can be kept to whose pages can be written. -/
theorem server_by {D : Delivery} {serviceBody versionBody : Option String → Bytes}
    (hservices : ∀ p ∈ D.services.pages, Shows servicesPage? (serviceBody p.1) p.2)
    (hversions : ∀ p ∈ D.versions.pages, Shows versionsPage? (versionBody p.1) p.2) :
    D.By (D.server serviceBody versionBody) where
  services caller past p hp := by
    refine ⟨_, ?_, hservices p hp⟩
    have htoken : D.services.token? (Path.services D.project)
        ((Path.services D.project).page p.1).write = some p.1 :=
      Cut.token?_page (Cut.mem_tokens_of_mem_pages hp)
    simp only [server, Listing.request, Listing.path, servicesListing, htoken]
  versions caller past p hp := by
    refine ⟨_, ?_, hversions p hp⟩
    have hnone : D.services.token? (Path.services D.project)
        ((Path.versions D.project D.module).page p.1).write = none :=
      Cut.token?_eq_none fun token => services_ne_versions _ _ _ _
    have htoken : D.versions.token? (Path.versions D.project D.module)
        ((Path.versions D.project D.module).page p.1).write = some p.1 :=
      Cut.token?_page (Cut.mem_tokens_of_mem_pages hp)
    simp only [server, Listing.request, Listing.path, versionsListing, hnone, htoken]
  application past caller :=
    server_other (by simp [Path.application]) (by simp [Path.application, Path.services])
      (by simp [Path.application, Path.versions]) past caller
  version past version caller :=
    server_other (by simp [Path.version, Path.versionSegments])
      (by simp [Path.version, Path.versionSegments, Path.services])
      (by simp [Path.version, Path.versionSegments, Path.versions]) past caller

end Delivery

/-! ## Hidden pages -/

/-- **Paging is hidden.** However the services of a project and the versions of
a module are cut into pages, and whatever the tokens, `listModules`,
`listVersions` and `hostname` come to what they come to when each list is on a
single page. A listing takes one request for each page, in the order of the
tokens, and all names are there once and in order; no two pages share a path. -/
theorem paging_hidden (D : Delivery) {paged single : Server Request Reply} (hpaged : D.By paged)
    (hsingle : D.whole.By single) :
    let names := D.services.items.map Service.id
    let services := servicesListing D.project "get_modules"
    let versionNames := D.versions.items.map VersionReply.id
    let versions := versionsListing D.project D.module "get_versions"
    (Ends paged (backend D.project).listModules.run (D.services.requests services) (.ok names) ∧
      Ends single (backend D.project).listModules.run [services.request none] (.ok names)) ∧
    (Ends paged ((backend D.project).listVersions D.module).run (D.versions.requests versions)
        (.ok versionNames) ∧
      Ends single ((backend D.project).listVersions D.module).run [versions.request none]
        (.ok versionNames)) ∧
    (∀ selector index, ∃ made outcome,
      Ends single ((backend D.project).hostname ⟨D.module, selector, index⟩).run made outcome ∧
      Ends paged ((backend D.project).hostname ⟨D.module, selector, index⟩).run
        (made.flatMap D.expand) outcome) ∧
    ∀ caller caller', (D.services.requests (servicesListing D.project caller) ++
      D.versions.requests (versionsListing D.project D.module caller')).Nodup := by
  refine ⟨⟨?_, ?_⟩, ⟨?_, ?_⟩, fun selector index => ?_, D.requests_nodup⟩
  · exact listModules_ends (hpaged.services _)
  · exact listModules_ends (hsingle.services _)
  · exact listVersions_ends (hpaged.versions _)
  · exact listVersions_ends (hsingle.versions _)
  · exact Delivery.Hides.hostname selector index hpaged hsingle

/-- Two services and two versions of one of them, each on a page of its own, the
second pages behind one token. -/
def twoPages : Delivery where
  project := "demo"
  module := "api"
  services := ⟨[([⟨"default", none⟩], "2/é")], [⟨"api", none⟩], by decide, by decide⟩
  versions := ⟨[([⟨"v1", none, false⟩], "2/é")], [⟨"v2", none, false⟩], by decide, by decide⟩
  other _ := .error (.http 404 "Application not found.")

def twoPagesServer : Server Request Reply :=
  twoPages.server
    (fun
      | none => Utf8.encode "[[[\"default\"]],\"2/é\"]"
      | some _ => Utf8.encode "[[[\"api\"]],null]")
    (fun
      | none => Utf8.encode "[[[\"v1\",null,null]],\"2/é\"]"
      | some _ => Utf8.encode "[[[\"v2\",null,null]],\"\"]")

def onePageServer : Server Request Reply :=
  twoPages.whole.server
    (fun _ => Utf8.encode "[[[\"default\"],[\"api\"]],null]")
    (fun _ => Utf8.encode "[[[\"v1\",null,null],[\"v2\",null,null]],null]")

theorem twoPagesServer_by : twoPages.By twoPagesServer :=
  Delivery.server_by
    (List.forall_mem_cons.2
      ⟨⟨⟨[⟨"default", none⟩], some "2/é"⟩, by cbv, rfl, by decide⟩,
        List.forall_mem_singleton.2 ⟨⟨[⟨"api", none⟩], none⟩, by cbv, rfl, rfl⟩⟩)
    (List.forall_mem_cons.2
      ⟨⟨⟨[⟨"v1", none, false⟩], some "2/é"⟩, by cbv, rfl, by decide⟩,
        List.forall_mem_singleton.2 ⟨⟨[⟨"v2", none, false⟩], some ""⟩, by cbv, rfl, by decide⟩⟩)

theorem onePageServer_by : twoPages.whole.By onePageServer :=
  Delivery.server_by
    (List.forall_mem_singleton.2
      ⟨⟨[⟨"default", none⟩, ⟨"api", none⟩], none⟩, by cbv, rfl, rfl⟩)
    (List.forall_mem_singleton.2
      ⟨⟨[⟨"v1", none, false⟩, ⟨"v2", none, false⟩], none⟩, by cbv, rfl, rfl⟩)

theorem paging_hidden_two_pages :
    Ends twoPagesServer (backend "demo").listModules.run
      [.get "apps/demo/services" "get_modules",
        .get "apps/demo/services?pageToken=2%2F%C3%A9" "get_modules"]
      (.ok ["default", "api"]) :=
  (paging_hidden twoPages twoPagesServer_by onePageServer_by).1.1

end ControlPlane.Admin
