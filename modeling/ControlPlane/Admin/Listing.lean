/-
Listings in pages. A page may hand out a token for the next one; the walk
follows tokens until there is none, and never one it has followed before. It
recurs on the replies still to come, so it needs no bound of its own: a server
that hands out fresh tokens for ever is one whose replies do not end.
-/
import ControlPlane.Admin.Path
import ControlPlane.Admin.Reply
import ControlPlane.Request

namespace ControlPlane.Admin

/-- Why a body cannot be read. -/
def undecodable (path : String) : Fault := .decode s!"GET {path}: malformed reply"

/-- Reads the resource at a path. -/
def fetch (reply? : Json → Option α) (path caller : String) : ExceptT Fault Exchange α := do
  let body ← Exchange.send (.get path caller)
  match decode? reply? body with
  | some reply => pure reply
  | none => throw (undecodable path)

/-- A listing: its first page's path, how a page is read, and for whom. -/
structure Listing (α : Type) where
  base : Path
  page? : Json → Option (Page α)
  caller : String

namespace Listing

/-- The path of the page that a token leads to. -/
def path (l : Listing α) (token : Option String) : String := (l.base.page token).write

/-- What a token handed out twice is. -/
def repeatedToken (l : Listing α) (token : String) : Fault :=
  .protocol s!"GET {l.base.write}: page token '{token}' returned twice"

/-- The token to follow after a page, if the listing goes on. -/
def advance (l : Listing α) (seen : List String) (next : Option String) :
    Except Fault (Option String) :=
  match next.filter (· ≠ "") with
  | none => .ok none
  | some token => if token ∈ seen then .error (l.repeatedToken token) else .ok (some token)

/-- The items from the page that `token` leads to on, when the tokens `seen`
have been followed, that one included. -/
def walkFrom (l : Listing α) (token : Option String) (seen : List String) :
    ExceptT Fault Exchange (List α) :=
  ExceptT.mk fun replies => go token seen replies
where
  go (token : Option String) (seen : List String) :
      List Reply → Except Request (Except Fault (List α) × List Reply)
    | [] => .error (.get (l.path token) l.caller)
    | .error fault :: rest => .ok (.error fault, rest)
    | .ok body :: rest =>
      match decode? l.page? body with
      | none => .ok (.error (undecodable (l.path token)), rest)
      | some page =>
        match l.advance seen page.next with
        | .error fault => .ok (.error fault, rest)
        | .ok none => .ok (.ok page.items, rest)
        | .ok (some token) =>
          match go (some token) (token :: seen) rest with
          | .error request => .error request
          | .ok (.error fault, rest) => .ok (.error fault, rest)
          | .ok (.ok items, rest) => .ok (.ok (page.items ++ items), rest)

/-- All items of the listing. -/
def walk (l : Listing α) : ExceptT Fault Exchange (List α) := l.walkFrom none []

end Listing
end ControlPlane.Admin
