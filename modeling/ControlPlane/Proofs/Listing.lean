/-
The walk through a listing, whatever the server replies. `Walking` is the
state of a walk that goes on: the items so far and the tokens followed, in
order. Every reply leads from one such state to the next or ends the walk, and
the laws of a walk with a server (`Safe`) are read off that.
-/
import ControlPlane.Admin.Backend
import ControlPlane.Proofs.Exchange
import ControlPlane.Proofs.Path
import Mathlib.Data.Finset.Card
import Mathlib.Data.List.Induction

namespace ControlPlane.Admin

variable {α : Type}

namespace Listing

open Dialogue

variable {l : Listing α}

/-- The request for the page that a token leads to. -/
def request (l : Listing α) (token : Option String) : Request := .get (l.path token) l.caller

/-- The token a reply hands out. What is no page hands out none, and so does a
page whose token is absent or empty. -/
def token? (l : Listing α) : Reply → Option String
  | .ok body => (decode? l.page? body).bind fun page => page.next.filter (· ≠ "")
  | .error _ => none

/-- A walk that goes on after the replies `received`: the items of their pages,
and the tokens they handed out, each new when it came. -/
inductive Walking (l : Listing α) : List Reply → List α → List String → Prop
  | start : Walking l [] [] []
  | page {received items tokens body page token} : Walking l received items tokens →
      decode? l.page? body = some page → page.next.filter (· ≠ "") = some token →
      token ∉ tokens →
      Walking l (received ++ [.ok body]) (items ++ page.items) (tokens ++ [token])

/-! ## The state of a walk -/

/-- Items put in front of those a walk still finds. -/
def ahead (items : List α) :
    Except Request (Except Fault (List α) × List Reply) →
      Except Request (Except Fault (List α) × List Reply)
  | .ok (.ok found, rest) => .ok (.ok (items ++ found), rest)
  | other => other

theorem ahead_nil (r : Except Request (Except Fault (List α) × List Reply)) : ahead [] r = r := by
  rcases r with _ | ⟨_ | _, _⟩ <;> rfl

theorem ahead_ahead (items items' : List α)
    (r : Except Request (Except Fault (List α) × List Reply)) :
    ahead items (ahead items' r) = ahead (items ++ items') r := by
  rcases r with _ | ⟨_ | found, _⟩
  · rfl
  · rfl
  · simp [ahead]

theorem ahead_eq_map (items : List α) (x : Exchange (Except Fault (List α)))
    (replies : List Reply) :
    ahead items (x replies) = (Except.map (items ++ ·) <$> x) replies := by
  rw [map_eq_pure_bind, bind_apply]
  rcases x replies with _ | ⟨_ | _, _⟩ <;> rfl

theorem go_last {token seen body page rest} (hpage : decode? l.page? body = some page)
    (hnext : page.next.filter (· ≠ "") = none) :
    walkFrom.go l token seen (.ok body :: rest) = .ok (.ok page.items, rest) := by
  simp only [walkFrom.go, hpage, advance, hnext]

theorem go_page {token seen body page next rest} (hpage : decode? l.page? body = some page)
    (hnext : page.next.filter (· ≠ "") = some next) (hnew : next ∉ seen) :
    walkFrom.go l token seen (.ok body :: rest) =
      ahead page.items (walkFrom.go l (some next) (next :: seen) rest) := by
  simp only [walkFrom.go, hpage, advance, hnext, hnew, if_false]
  rcases walkFrom.go l (some next) (next :: seen) rest with _ | ⟨_ | _, _⟩ <;> rfl

theorem go_repeated {token seen body page next rest} (hpage : decode? l.page? body = some page)
    (hnext : page.next.filter (· ≠ "") = some next) (hseen : next ∈ seen) :
    walkFrom.go l token seen (.ok body :: rest) = .ok (.error (l.repeatedToken next), rest) := by
  simp only [walkFrom.go, hpage, advance, hnext, hseen, if_true]

theorem go_undecodable {token seen body rest} (hpage : decode? l.page? body = none) :
    walkFrom.go l token seen (.ok body :: rest) =
      .ok (.error (undecodable (l.path token)), rest) := by
  simp only [walkFrom.go, hpage]

theorem go_steady (token : Option String) (seen : List String) :
    Steady (walkFrom.go l token seen) := by
  intro replies
  induction replies generalizing token seen with
  | nil => intro a rest h; cases h
  | cons reply replies ih =>
    intro a rest h
    rcases reply with fault | body
    · obtain ⟨rfl, rfl⟩ : .error fault = a ∧ replies = rest := by simpa [walkFrom.go] using h
      exact ⟨[.error fault], rfl, fun more => by simp [walkFrom.go]⟩
    cases hpage : decode? l.page? body with
    | none =>
      rw [go_undecodable hpage] at h
      cases h
      exact ⟨[.ok body], rfl, fun more => go_undecodable hpage⟩
    | some page =>
      cases hnext : page.next.filter (· ≠ "") with
      | none =>
        rw [go_last hpage hnext] at h
        cases h
        exact ⟨[.ok body], rfl, fun more => go_last hpage hnext⟩
      | some next =>
        by_cases hseen : next ∈ seen
        · rw [go_repeated hpage hnext hseen] at h
          cases h
          exact ⟨[.ok body], rfl, fun more => go_repeated hpage hnext hseen⟩
        · rw [go_page hpage hnext hseen] at h
          rcases hgo : walkFrom.go l (some next) (next :: seen) replies with q | ⟨r, rest'⟩
          · rw [hgo] at h; cases h
          · obtain ⟨used, rfl, hmore⟩ := ih _ _ hgo
            refine ⟨.ok body :: used, ?_, fun more => ?_⟩
            · rw [hgo] at h; rcases r with _ | _ <;> cases h <;> rfl
            · rw [List.cons_append, go_page hpage hnext hseen, hmore]
              rw [hgo] at h; rcases r with _ | _ <;> cases h <;> rfl

theorem walk_steady (l : Listing α) : Steady l.walk.run := go_steady none []

/-- The walk from where it has got to: the loop at the last token, with all
tokens seen and the items found put in front. -/
theorem Walking.walk_append {received items tokens} (h : Walking l received items tokens) :
    ∀ more, l.walk.run (received ++ more) =
      ahead items (walkFrom.go l tokens.getLast? tokens.reverse more) := by
  induction h with
  | start => intro more; exact (ahead_nil _).symm
  | page _ hpage hnext hnew ih =>
    intro more
    rw [List.append_assoc, ih, List.singleton_append,
      go_page hpage hnext (by simpa using hnew), ahead_ahead]
    simp

theorem Walking.asks {received items tokens} (h : Walking l received items tokens) :
    l.walk.run received = .error (l.request tokens.getLast?) := by
  simpa [ahead, walkFrom.go, request] using h.walk_append []

/-! ## One reply -/

theorem Walking.fault {received items tokens} (h : Walking l received items tokens) (fault : Fault)
    (more : List Reply) :
    l.walk.run (received ++ .error fault :: more) = .ok (.error fault, more) := by
  rw [h.walk_append]; rfl

theorem Walking.undecodable {received items tokens body} (h : Walking l received items tokens)
    (hpage : decode? l.page? body = none) (more : List Reply) :
    l.walk.run (received ++ .ok body :: more) =
      .ok (.error (Admin.undecodable (l.path tokens.getLast?)), more) := by
  rw [h.walk_append, go_undecodable hpage]; rfl

theorem Walking.last {received items tokens body page} (h : Walking l received items tokens)
    (hpage : decode? l.page? body = some page) (hnext : page.next.filter (· ≠ "") = none)
    (more : List Reply) :
    l.walk.run (received ++ .ok body :: more) = .ok (.ok (items ++ page.items), more) := by
  rw [h.walk_append, go_last hpage hnext]; rfl

theorem Walking.repeated {received items tokens body page next}
    (h : Walking l received items tokens) (hpage : decode? l.page? body = some page)
    (hnext : page.next.filter (· ≠ "") = some next) (hseen : next ∈ tokens) (more : List Reply) :
    l.walk.run (received ++ .ok body :: more) = .ok (.error (l.repeatedToken next), more) := by
  rw [h.walk_append, go_repeated hpage hnext (by simpa using hseen)]; rfl

/-- How a reply ends a walk with these items and tokens. -/
inductive Finishes (l : Listing α) (items : List α) (tokens : List String) :
    Reply → Except Fault (List α) → Prop
  | fault {fault} : Finishes l items tokens (.error fault) (.error fault)
  | undecodable {body} : decode? l.page? body = none →
      Finishes l items tokens (.ok body) (.error (Admin.undecodable (l.path tokens.getLast?)))
  | last {body page} : decode? l.page? body = some page → page.next.filter (· ≠ "") = none →
      Finishes l items tokens (.ok body) (.ok (items ++ page.items))
  | repeated {body page token} : decode? l.page? body = some page →
      page.next.filter (· ≠ "") = some token → token ∈ tokens →
      Finishes l items tokens (.ok body) (.error (l.repeatedToken token))

/-- A reply to a walk that goes on ends it, or it goes on. -/
theorem Walking.finishes_or_goes_on {received items tokens} (h : Walking l received items tokens)
    (reply : Reply) :
    (∃ outcome, Finishes l items tokens reply outcome ∧
      ∀ more, l.walk.run (received ++ reply :: more) = .ok (outcome, more)) ∨
    ∃ items' tokens', Walking l (received ++ [reply]) items' tokens' := by
  rcases reply with fault | body
  · exact .inl ⟨_, .fault, h.fault fault⟩
  cases hpage : decode? l.page? body with
  | none => exact .inl ⟨_, .undecodable hpage, h.undecodable hpage⟩
  | some page =>
    cases hnext : page.next.filter (· ≠ "") with
    | none => exact .inl ⟨_, .last hpage hnext, h.last hpage hnext⟩
    | some next =>
      by_cases hseen : next ∈ tokens
      · exact .inl ⟨_, .repeated hpage hnext hseen, h.repeated hpage hnext hseen⟩
      · exact .inr ⟨_, _, .page h hpage hnext hseen⟩

/-- A walk that asks for a page is one that goes on. -/
theorem walking_of_asks {received : List Reply} {q : Request} (h : l.walk.run received = .error q) :
    ∃ items tokens, Walking l received items tokens := by
  induction received using List.reverseRecOn generalizing q with
  | nil => exact ⟨[], [], .start⟩
  | append_singleton received reply ih =>
    cases hr : l.walk.run received with
    | ok p =>
      obtain ⟨used, rfl, hmore⟩ := walk_steady l hr
      rw [List.append_assoc, hmore] at h
      cases h
    | error q' =>
      obtain ⟨items, tokens, hw⟩ := ih hr
      rcases hw.finishes_or_goes_on reply with ⟨outcome, -, hrun⟩ | hw
      · cases (hrun []).symm.trans h
      · exact hw

theorem walk_failsAs (l : Listing α) : Exchange.FailsAs id l.walk where
  steady := walk_steady l
  stops hask fault := by
    obtain ⟨items, tokens, hw⟩ := walking_of_asks hask
    exact hw.fault fault []

/-! ## What a state of a walk says -/

theorem Walking.tokens_nodup {received items tokens} (h : Walking l received items tokens) :
    tokens.Nodup := by
  induction h with
  | start => exact List.nodup_nil
  | page _ _ _ hnew ih =>
    refine List.nodup_append.2 ⟨ih, List.nodup_singleton _, fun t ht t' ht' => ?_⟩
    obtain rfl := List.mem_singleton.1 ht'
    exact fun he => hnew (he ▸ ht)

theorem Walking.tokens_ne {received items tokens} (h : Walking l received items tokens) :
    "" ∉ tokens := by
  induction h with
  | start => simp
  | page _ _ hnext _ ih =>
    have hne := (Option.filter_eq_some_iff.1 hnext).2
    simp only [List.mem_append, List.mem_singleton, not_or]
    exact ⟨ih, fun he => by simp [← he] at hne⟩

/-- The tokens of a walk are those of its replies, each of which has one. -/
theorem Walking.map_token? {received items tokens} (h : Walking l received items tokens) :
    received.map l.token? = tokens.map some := by
  induction h with
  | start => rfl
  | page _ hpage hnext _ ih =>
    simp only [List.map_append, List.map_singleton, ih, token?, hpage, Option.bind_some, hnext]

/-- The items of a walk are those of its pages, in the order of the replies. -/
theorem Walking.pages {received items tokens} (h : Walking l received items tokens) :
    ∃ pages, List.Forall₂ (fun reply page => ∃ body, reply = .ok body ∧
      decode? l.page? body = some page) received pages ∧ items = pages.flatMap (·.items) := by
  induction h with
  | start => exact ⟨[], .nil, rfl⟩
  | @page _ _ _ body page _ _ hpage _ _ ih =>
    obtain ⟨pages, hpages, rfl⟩ := ih
    exact ⟨pages ++ [page], List.rel_append hpages (.cons ⟨body, rfl, hpage⟩ .nil), by simp⟩

/-- The requests of a walk, the one to be made next included. -/
theorem Walking.made {server : Server Request Reply} {made received items tokens}
    (h : Walking l received items tokens) (hr : Reaches server l.walk.run made received) :
    made ++ [l.request tokens.getLast?] = (none :: tokens.map some).map l.request := by
  induction h generalizing made with
  | start =>
    generalize hnil : ([] : List Reply) = received at hr
    cases hr with
    | start => rfl
    | ask _ _ => simp at hnil
  | @page received items tokens body page token h hpage hnext hnew ih =>
    generalize hsnoc : received ++ [.ok body] = received' at hr
    cases hr with
    | start => simp at hsnoc
    | @ask made received' q hr hask =>
      obtain ⟨rfl, -⟩ := List.append_inj' hsnoc rfl
      obtain rfl : q = l.request tokens.getLast? := by
        rw [h.asks] at hask
        exact (Except.error.inj hask).symm
      rw [ih hr]
      simp

/-! ## The laws of a walk -/

/-- What holds of a walk with any server. -/
structure Safe (l : Listing α) (server : Server Request Reply) : Prop where
  /-- The first request is for the base path. -/
  first : l.walk.run [] = .error (.get l.base.write l.caller)
  /-- Each further request is for the page of the token handed out before it.
  The tokens followed are not empty, and no two are the same. -/
  follows : ∀ ⦃made received⦄, Reaches server l.walk.run made received → made ≠ [] →
    ∃ tokens : List String, received.dropLast.map l.token? = tokens.map some ∧
      made = (none :: tokens.map some).map l.request ∧ "" ∉ tokens ∧ tokens.Nodup
  /-- The path of a token's page is the base path with the token, encoded, as
  its last parameter. -/
  page_path : ∀ token, l.path (some token) =
    l.base.write ++ (if l.base.query = [] then "?" else "&") ++ "pageToken=" ++
      Percent.encode token
  /-- No page is asked for twice. -/
  distinct : ∀ ⦃made received⦄, Reaches server l.walk.run made received → made.Nodup
  /-- A walk that succeeds has all items of the pages received, in the order of
  the requests, and the last of them hands out no token. -/
  succeeds : ∀ ⦃made items⦄, Ends server l.walk.run made (.ok items) →
    ∃ received pages, Reaches server l.walk.run made received ∧
      List.Forall₂ (fun reply page => ∃ body, reply = .ok body ∧
        decode? l.page? body = some page) received pages ∧
      items = pages.flatMap (·.items) ∧
      ∃ page, pages.getLast? = some page ∧ (page.next = none ∨ page.next = some "")
  /-- It does succeed at such a page. -/
  last : ∀ ⦃made received request⦄, Reaches server l.walk.run made received →
    l.walk.run received = .error request → ∀ body page, server made request = .ok body →
      decode? l.page? body = some page → page.next = none ∨ page.next = some "" →
      ∃ items, Ends server l.walk.run (made ++ [request]) (.ok items)
  /-- A fault in reply to any request ends the walk with that fault. -/
  fault : ∀ ⦃made received request⦄, Reaches server l.walk.run made received →
    l.walk.run received = .error request → ∀ fault, server made request = .error fault →
      Ends server l.walk.run (made ++ [request]) (.error fault)
  /-- So does a body that cannot be read. -/
  undecodable : ∀ ⦃made received request⦄, Reaches server l.walk.run made received →
    l.walk.run received = .error request → ∀ body, server made request = .ok body →
      decode? l.page? body = none → ∃ path, request = .get path l.caller ∧
        Ends server l.walk.run (made ++ [request]) (.error (Admin.undecodable path))
  /-- And so does a token whose page has been asked for. -/
  repeated : ∀ ⦃made received request⦄, Reaches server l.walk.run made received →
    l.walk.run received = .error request → ∀ token, l.token? (server made request) = some token →
      l.request (some token) ∈ made ++ [request] →
      Ends server l.walk.run (made ++ [request]) (.error (l.repeatedToken token))
  /-- If all tokens handed out are among `tokens`, the walk ends, with at most
  one request more than there are tokens. -/
  bounded : ∀ tokens : Finset String, (∀ ⦃made received⦄, Reaches server l.walk.run made received →
      ∀ reply ∈ received, ∀ token, l.token? reply = some token → token ∈ tokens) →
    ∃ made outcome, Ends server l.walk.run made outcome ∧ made.length ≤ tokens.card + 1

theorem next_filter_eq_none {next : Option String} :
    next.filter (· ≠ "") = none ↔ next = none ∨ next = some "" := by
  cases next <;> simp

theorem request_inj {token token' : Option String} (h : l.request token = l.request token') :
    token = token' := by
  simp only [request, Request.get.injEq] at h
  exact Path.page_inj h.1

theorem requests_nodup {tokens : List String} (h : tokens.Nodup) :
    ((none :: tokens.map some).map l.request).Nodup := by
  refine List.Nodup.map (fun _ _ => request_inj) (List.nodup_cons.2 ⟨by simp, ?_⟩)
  exact h.map (Option.some_injective _)

theorem mem_requests {tokens : List String} {token : String} :
    l.request (some token) ∈ (none :: tokens.map some).map l.request ↔ token ∈ tokens := by
  simp only [List.mem_map, List.mem_cons]
  constructor
  · rintro ⟨token', rfl | ⟨t, ht, rfl⟩, h⟩
    · cases request_inj h
    · cases request_inj h; exact ht
  · exact fun h => ⟨some token, .inr ⟨token, h, rfl⟩, rfl⟩

/-- A moment after the first request is one reply past a state of the walk. -/
theorem reaches_cases {server : Server Request Reply} {made received}
    (h : Reaches server l.walk.run made received) (hne : made ≠ []) :
    ∃ made' received' items tokens, Reaches server l.walk.run made' received' ∧
      Walking l received' items tokens ∧ made = made' ++ [l.request tokens.getLast?] ∧
      received = received' ++ [server made' (l.request tokens.getLast?)] := by
  cases h with
  | start => exact absurd rfl hne
  | @ask made' received' q h hask =>
    obtain ⟨items, tokens, hw⟩ := walking_of_asks hask
    obtain rfl : q = l.request tokens.getLast? := by
      rw [hw.asks] at hask
      exact (Except.error.inj hask).symm
    exact ⟨made', received', items, tokens, h, hw, rfl, rfl⟩

theorem safe_follows {server : Server Request Reply} {made received}
    (h : Reaches server l.walk.run made received) (hne : made ≠ []) :
    ∃ tokens : List String, received.dropLast.map l.token? = tokens.map some ∧
      made = (none :: tokens.map some).map l.request ∧ "" ∉ tokens ∧ tokens.Nodup := by
  obtain ⟨made', received', items, tokens, hr, hw, rfl, rfl⟩ := reaches_cases h hne
  refine ⟨tokens, ?_, hw.made hr, hw.tokens_ne, hw.tokens_nodup⟩
  rw [List.dropLast_concat, hw.map_token?]

theorem safe_distinct {server : Server Request Reply} {made received}
    (h : Reaches server l.walk.run made received) : made.Nodup := by
  by_cases hne : made = []
  · subst hne; exact List.nodup_nil
  · obtain ⟨tokens, -, rfl, -, hnodup⟩ := safe_follows h hne
    exact requests_nodup hnodup

/-- A walk that has ended was ended by the reply to its last request. -/
theorem walk_finishes {server : Server Request Reply} {made outcome}
    (h : Ends server l.walk.run made outcome) :
    ∃ made' received items tokens, Reaches server l.walk.run made' received ∧
      Walking l received items tokens ∧ made = made' ++ [l.request tokens.getLast?] ∧
      Finishes l items tokens (server made' (l.request tokens.getLast?)) outcome := by
  obtain ⟨received, hr, hmore⟩ := h
  have hdone : l.walk.run received = .ok (outcome, []) := by simpa using hmore []
  have hne : made ≠ [] := by
    rintro rfl
    generalize hnil : ([] : List Request) = made at hr
    cases hr with
    | start => rw [Walking.start.asks] at hdone; cases hdone
    | ask _ _ => simp at hnil
  obtain ⟨made', received', items, tokens, hr', hw, rfl, rfl⟩ := reaches_cases hr hne
  refine ⟨made', received', items, tokens, hr', hw, rfl, ?_⟩
  rcases hw.finishes_or_goes_on (server made' (l.request tokens.getLast?)) with
    ⟨outcome', hfinishes, hrun⟩ | ⟨_, _, hw⟩
  · cases (hrun []).symm.trans hdone
    exact hfinishes
  · cases hw.asks.symm.trans hdone

theorem safe_succeeds {server : Server Request Reply} {made items}
    (h : Ends server l.walk.run made (.ok items)) :
    ∃ received pages, Reaches server l.walk.run made received ∧
      List.Forall₂ (fun reply page => ∃ body, reply = .ok body ∧
        decode? l.page? body = some page) received pages ∧
      items = pages.flatMap (·.items) ∧
      ∃ page, pages.getLast? = some page ∧ (page.next = none ∨ page.next = some "") := by
  obtain ⟨made', received, items', tokens, hr, hw, rfl, hfinishes⟩ := walk_finishes h
  obtain ⟨pages, hpages, rfl⟩ := hw.pages
  have hlast := hr.ask hw.asks
  generalize server made' (l.request tokens.getLast?) = reply at hlast hfinishes
  cases hfinishes with
  | @last body page hpage hnext =>
    refine ⟨_, pages ++ [page], hlast, List.rel_append hpages (.cons ⟨body, rfl, hpage⟩ .nil),
      by simp, page, by simp, ?_⟩
    exact next_filter_eq_none.1 hnext

theorem safe_undecodable {server : Server Request Reply} {made received request body}
    (h : Reaches server l.walk.run made received) (hask : l.walk.run received = .error request)
    (hreply : server made request = .ok body) (hpage : decode? l.page? body = none) :
    ∃ path, request = .get path l.caller ∧
      Ends server l.walk.run (made ++ [request]) (.error (Admin.undecodable path)) := by
  obtain ⟨items, tokens, hw⟩ := walking_of_asks hask
  obtain rfl : request = l.request tokens.getLast? := by
    rw [hw.asks] at hask
    exact (Except.error.inj hask).symm
  have hnext := h.ask hask
  rw [hreply] at hnext
  exact ⟨_, rfl, hnext.ends (walk_steady l) (hw.undecodable hpage [])⟩

theorem safe_repeated {server : Server Request Reply} {made received request token}
    (h : Reaches server l.walk.run made received) (hask : l.walk.run received = .error request)
    (htoken : l.token? (server made request) = some token)
    (hmem : l.request (some token) ∈ made ++ [request]) :
    Ends server l.walk.run (made ++ [request]) (.error (l.repeatedToken token)) := by
  obtain ⟨items, tokens, hw⟩ := walking_of_asks hask
  obtain rfl : request = l.request tokens.getLast? := by
    rw [hw.asks] at hask
    exact (Except.error.inj hask).symm
  rw [hw.made h, mem_requests] at hmem
  have hnext := h.ask hask
  generalize server made (l.request tokens.getLast?) = reply at htoken hnext
  rcases reply with fault | body
  · cases htoken
  obtain ⟨page, hpage, hpnext⟩ := Option.bind_eq_some_iff.1 htoken
  exact hnext.ends (walk_steady l) (hw.repeated hpage hpnext hmem [])

theorem safe_bounded {server : Server Request Reply} {tokens : Finset String}
    (h : ∀ ⦃made received⦄, Reaches server l.walk.run made received →
      ∀ reply ∈ received, ∀ token, l.token? reply = some token → token ∈ tokens) :
    ∃ made outcome, Ends server l.walk.run made outcome ∧ made.length ≤ tokens.card + 1 := by
  rcases ends_or_asks (walk_steady l) server (tokens.card + 1) with
    hends | ⟨made, received, request, hr, hlen, hask⟩
  · exact hends
  -- More tokens would have been followed than there are.
  obtain ⟨items, followed, hw⟩ := walking_of_asks hask
  have hcount := congrArg List.length (hw.made hr)
  simp only [List.length_append, List.length_map, List.length_cons] at hcount
  have hsub : followed.toFinset ⊆ tokens := by
    intro token htoken
    rw [List.mem_toFinset] at htoken
    have : some token ∈ received.map l.token? := by
      rw [hw.map_token?]
      exact List.mem_map_of_mem htoken
    obtain ⟨reply, hreply, he⟩ := List.mem_map.1 this
    exact h hr reply hreply token he
  have hcard := Finset.card_le_card hsub
  rw [List.toFinset_card_of_nodup hw.tokens_nodup] at hcard
  omega

theorem walk_safe (l : Listing α) (server : Server Request Reply) : Safe l server where
  first := Walking.start.asks
  follows _ _ h hne := safe_follows h hne
  page_path token := by
    rw [path, Path.page, Path.write_withQuery]
    simp only [String.append_assoc]
    rfl
  distinct _ _ h := safe_distinct h
  succeeds _ _ h := safe_succeeds h
  last _ _ _ h hask _ _ hreply hpage hnext := by
    obtain ⟨items, tokens, hw⟩ := walking_of_asks hask
    have hr := h.ask hask
    rw [hreply] at hr
    exact ⟨_, hr.ends (walk_steady l) (hw.last hpage (next_filter_eq_none.2 hnext) [])⟩
  fault _ _ _ h hask _ hreply := (walk_failsAs l).ends h hask hreply
  undecodable _ _ _ h hask _ hreply hpage := safe_undecodable h hask hreply hpage
  repeated _ _ _ h hask _ htoken hmem := safe_repeated h hask htoken hmem
  bounded _ h := safe_bounded h

end Listing

/-! ## The listings of a project -/

open Dialogue

def servicesListing (project caller : String) : Listing Service :=
  ⟨.services project, servicesPage?, caller⟩

def versionsListing (project module caller : String) : Listing VersionReply :=
  ⟨.versions project module, versionsPage?, caller⟩

/-- A page of items in the field `name` says of no further one: its token is
absent, `null` or empty. -/
def LacksToken (name : String) (j : Json) : Prop :=
  ∃ r, j.record? [name, "nextPageToken"] = some r ∧
    (r.field? "nextPageToken" = none ∨ ∃ token, r.field? "nextPageToken" = some token ∧
      (token = .null ∨ token.string? = some ""))

theorem lacksToken_iff {name : String} {item? : Json → Option α} {j : Json} {page : Page α}
    (h : Page.ofJson? name item? j = some page) :
    page.next = none ∨ page.next = some "" ↔ LacksToken name j := by
  simp only [Page.ofJson?, Option.bind_eq_bind, Option.bind_eq_some_iff, Option.pure_def,
    Option.some.injEq] at h
  obtain ⟨r, hr, items, -, next, hnext, rfl⟩ := h
  simp only [LacksToken, hr, Option.some.injEq, exists_eq_left']
  cases hfield : r.field? "nextPageToken" with
  | none =>
    simp only [Json.Record.optional?, hfield] at hnext
    split at hnext
    · cases hnext
    · cases hnext; simp
  | some token =>
    simp only [Json.Record.optional?, hfield] at hnext
    cases token with
    | null => cases hnext; simp
    | string text =>
      obtain ⟨t, ht, rfl⟩ : ∃ t, text.decode? = some t ∧ some t = next := by
        simpa [Json.optional?, Json.string?] using hnext
      simp [Json.string?, ht]
    | _ => cases hnext

/-- **Listing walks are safe with any server.** However a server replies, both
walks keep the laws of `Safe`: they follow its tokens from the base path on,
ask for no page twice, have all items or none, and end at once at whatever is
wrong; with finitely many tokens they end. The last page of a walk that
succeeds is one whose token is absent, `null` or empty. -/
theorem listing_walks_safe (project module caller : String) (server : Server Request Reply) :
    (services project caller = (servicesListing project caller).walk ∧
      (servicesListing project caller).Safe server) ∧
    (versions project module caller = (versionsListing project module caller).walk ∧
      (versionsListing project module caller).Safe server) ∧
    (∀ j page, servicesPage? j = some page →
      (page.next = none ∨ page.next = some "" ↔ LacksToken "services" j)) ∧
    (∀ j page, versionsPage? j = some page →
      (page.next = none ∨ page.next = some "" ↔ LacksToken "versions" j)) :=
  ⟨⟨rfl, Listing.walk_safe _ server⟩, ⟨rfl, Listing.walk_safe _ server⟩,
    fun _ _ h => lacksToken_iff h, fun _ _ h => lacksToken_iff h⟩

end ControlPlane.Admin
