/-
Dialogues with a server. A dialogue is a function of the replies received so
far: it answers either the request it needs a reply to next, or its outcome
and the replies it has not used. So one that never ends is still an ordinary
total function, an adversarial server is an arbitrary list of replies, and
two dialogues are the same when they make the same requests and come to the
same outcome.
-/

namespace ControlPlane

abbrev Dialogue (Req Rep : Type) := StateT (List Rep) (Except Req)

namespace Dialogue

variable {Req Rep α : Type}

/-- Makes one request and waits for its reply. -/
def ask (request : Req) : Dialogue Req Rep Rep
  | [] => .error request
  | reply :: rest => .ok (reply, rest)

/-- The requests that are made while `replies` come in, in order: the one that
each initial stretch of the replies leads to, until the outcome. -/
def requests (d : Dialogue Req Rep α) (replies : List Rep) : List Req :=
  (List.range (replies.length + 1)).filterMap fun count =>
    match d (replies.take count) with
    | .error request => some request
    | .ok _ => none

/-- How a dialogue went: the requests made, and the outcome if it came to one. -/
structure Transcript (Req α : Type) where
  requests : List Req
  outcome : Option α

/-- Carries a dialogue on from the replies received, with at most `fuel` more
requests. The server sees every request it had before the new one. -/
def carryOn (server : List Req → Req → Rep) (d : Dialogue Req Rep α) :
    Nat → (made : List Req) → (received : List Rep) → Transcript Req α
  | 0, made, received =>
    match d received with
    | .ok (a, _) => ⟨made, some a⟩
    | .error _ => ⟨made, none⟩
  | fuel + 1, made, received =>
    match d received with
    | .ok (a, _) => ⟨made, some a⟩
    | .error request =>
      carryOn server d fuel (made ++ [request]) (received ++ [server made request])

/-- Runs a dialogue with a server that has had the requests `past` already. -/
def run (server : List Req → Req → Rep) (fuel : Nat) (past : List Req) (d : Dialogue Req Rep α) :
    Transcript Req α :=
  carryOn (fun made request => server (past ++ made) request) d fuel [] []

end Dialogue
end ControlPlane
