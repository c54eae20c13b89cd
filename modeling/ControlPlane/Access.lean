/-
Access to a backend: which one settings choose, and how its requests are
answered over a network. The admin API needs a project to be bound to; the one
that settings give comes before the one that the environment names.
-/
import ControlPlane.Admin.Backend
import ControlPlane.Admin.Http
import ControlPlane.Client
import ControlPlane.Legacy.Backend
import ControlPlane.Legacy.Endpoint

namespace ControlPlane

/-- Why a backend cannot be had. That connections can be encrypted is taken for
granted, so there is no error for it. -/
inductive AccessError
  | missingProject
  | invalidEndpoint (endpoint reason : String)
  deriving DecidableEq, Repr

def AccessError.text : AccessError → String
  | missingProject =>
    "project id is not configured (set project_id, GAE_PROJECT, GOOGLE_CLOUD_PROJECT or " ++
      "GAE_APPLICATION)"
  | invalidEndpoint endpoint reason => s!"invalid endpoint '{endpoint}': {reason}"

/-- What happens to what is sent. -/
structure Network where
  exchange : Admin.HttpRequest → Admin.HttpEnding
  call : Legacy.Endpoint → Legacy.RpcCall → Legacy.Ending

/-- A network nobody answers in. -/
def Network.unreachable : Network where
  exchange _ := .failed "client error (Connect)"
  call _ _ := .unreachable "tcp connect error"

/-- A backend, with where its service is. -/
inductive Access
  | legacy (endpoint : Legacy.Endpoint)
  | admin (project : String) (endpoint : Admin.Endpoint)
  deriving DecidableEq, Repr

namespace Access

/-- The project that requests are about. -/
def project? (s : Settings) (lookup : String → Option String) : Option String :=
  s.projectId <|> projectOfLookup lookup

def ofSettings (s : Settings) (lookup : String → Option String) : Except AccessError Access :=
  match s.mode with
  | .legacy =>
    match Legacy.Endpoint.ofSettings s.legacy with
    | .ok endpoint => .ok (legacy endpoint)
    | .error reason => .error (.invalidEndpoint s.legacy.endpoint reason)
  | .admin =>
    match project? s lookup with
    | none => .error .missingProject
    | some project =>
      match Admin.Endpoint.ofSettings s.admin with
      | .ok endpoint => .ok (admin project endpoint)
      | .error reason => .error (.invalidEndpoint s.admin.baseUrl reason)

def backend : Access → Backend Exchange
  | legacy _ => Legacy.backend
  | admin project _ => Admin.backend project

/-- The client of a caller. -/
def client (a : Access) (identity : Identity) : Client Exchange := ⟨a.backend, identity⟩

/-- Answers a request over a network. -/
def answer (a : Access) (network : Network) : Request → Reply :=
  match a with
  | legacy endpoint => Legacy.answer (network.call endpoint)
  | admin _ endpoint => endpoint.answer network.exchange

end Access
end ControlPlane
