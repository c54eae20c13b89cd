/-
Requests of the admin API as HTTP carries them, and what its replies come to.
A request is built before anything is sent, so one that cannot be built never
reaches the network; a reply is a body if its status is a success, and else a
fault with the message of the reply, or with the beginning of what it says.
-/
import ControlPlane.Admin.Reply
import ControlPlane.Request
import ControlPlane.Settings
import ControlPlane.Uri

namespace ControlPlane.Admin

inductive Method
  | get
  | patch
  deriving DecidableEq, Repr

def Method.text : Method → String
  | get => "GET"
  | patch => "PATCH"

structure HttpRequest where
  method : Method
  uri : Uri
  headers : List (String × String)
  body : Bytes
  deriving DecidableEq, Repr

/-- How an exchange ended. -/
inductive HttpEnding
  | replied (status : Nat) (body : Bytes)
  /-- There was no reply, and why. -/
  | failed (reason : String)
  /-- The body of the reply broke off, and why. -/
  | brokenBody (reason : String)
  /-- The deadline passed. -/
  | expired

/-! ## Endpoints -/

/-- The root of the API with what every request to it carries. -/
structure Endpoint where
  /-- The root, without slashes at its end. -/
  baseUrl : String
  timeoutMs : Nat
  userAgentPrefix : String
  accessToken : Option String
  deriving DecidableEq, Repr

/-- Why a root with this scheme may not be used, if it may not. -/
def schemeProblem? (allowInsecureHttp : Bool) (scheme : Option String) : Option String :=
  if scheme = some "https" ∨ (scheme = some "http" ∧ allowInsecureHttp = true) then none
  else some "expected an https:// URL"

/-- The endpoint that settings name, or why there is none. -/
def Endpoint.ofSettings (s : AdminSettings) : Except String Endpoint :=
  let baseUrl := Text.trimEnd '/' s.baseUrl
  match Uri.read baseUrl with
  | .error e => .error e.text
  | .ok uri =>
    match schemeProblem? s.allowInsecureHttp uri.scheme with
    | some problem => .error problem
    | none => .ok ⟨baseUrl, s.requestTimeoutMs, s.userAgentPrefix, s.accessToken⟩

/-! ## Requests -/

/-- Bytes a header may hold. -/
def isHeaderByte (b : UInt8) : Bool := (0x20 ≤ b && b != 0x7F) || b == 0x09

def isHeaderText (s : String) : Bool := (Utf8.encode s).all isHeaderByte

namespace Endpoint

/-- The address of a path relative to the root. -/
def url (e : Endpoint) (path : String) : String := e.baseUrl ++ "/" ++ Text.trimStart '/' path

def headers (e : Endpoint) (hasBody : Bool) (caller : String) : List (String × String) :=
  [("user-agent", e.userAgentPrefix ++ "/" ++ caller), ("accept", "application/json")]
    ++ (if hasBody then [("content-type", "application/json")] else [])
    ++ (e.accessToken.map fun token => ("authorization", "Bearer " ++ token)).toList

/-- Builds a request. Of two things wrong with it the address is told. -/
def prepare (e : Endpoint) (method : Method) (path : String) (body : Option Bytes)
    (caller : String) : Except Fault HttpRequest :=
  let url := e.url path
  let headers := e.headers body.isSome caller
  match Uri.read url with
  | .error problem => .error (.request s!"{url}: {problem.text}")
  | .ok uri =>
    if headers.all fun header => isHeaderText header.2 then
      .ok ⟨method, uri, headers, body.getD []⟩
    else .error (.request s!"{url}: failed to parse header value")

end Endpoint

/-! ## Replies -/

/-- The most characters shown of a body. -/
def previewLimit : Nat := 256

/-- The beginning of a text, with three dots where the rest is left out. -/
def preview (s : String) : String :=
  let cs := s.toList
  if previewLimit < cs.length then String.ofList (cs.take previewLimit ++ "...".toList) else s

/-- What a reply that is no success says. -/
def errorDetail (body : Bytes) : String :=
  (decode? errorMessage? body).getD (preview (Utf8.lossy body))

def isSuccess (status : Nat) : Bool := 200 ≤ status && status < 300

namespace Endpoint

/-- What the end of an exchange means. -/
def reply (e : Endpoint) (method : Method) (path : String) : HttpEnding → Reply
  | .replied status body =>
    if isSuccess status then .ok body else .error (.http status (errorDetail body))
  | .failed reason => .error (.io s!"{method.text} {e.url path} failed: {reason}")
  | .brokenBody reason => .error (.io s!"reading {e.url path} body failed: {reason}")
  | .expired =>
    .error (.io s!"{method.text} {e.url path} timed out after {Decimal.text e.timeoutMs} ms")

/-- One exchange, with no second try. -/
def exchange (e : Endpoint) (perform : HttpRequest → HttpEnding) (method : Method) (path : String)
    (body : Option Bytes) (caller : String) : Reply :=
  match e.prepare method path body caller with
  | .error fault => .error fault
  | .ok request => e.reply method path (perform request)

/-- Answers requests by exchanges. The API has no methods to call. -/
def answer (e : Endpoint) (perform : HttpRequest → HttpEnding) : Request → Reply
  | .get path caller => e.exchange perform .get path none caller
  | .patch path body caller => e.exchange perform .patch path (some body) caller
  | .call method _ _ => .error (.protocol s!"no method {method}")

end Endpoint
end ControlPlane.Admin
