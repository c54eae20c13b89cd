/-
What the client can be told: which backend to use and how to reach it. Every
setting has a value from the start, so a source says only what it changes.
-/
import ControlPlane.Backend

namespace ControlPlane

structure LegacySettings where
  /-- Where the service is. -/
  endpoint : String := "http://127.0.0.1:50051"
  connectTimeoutMs : Nat := 5000
  /-- How long a call may take. -/
  rpcTimeoutMs : Nat := 60000
  deriving DecidableEq, Repr

structure AdminSettings where
  /-- The root of the API, in front of `/apps`. -/
  baseUrl : String := "https://appengine.googleapis.com/v1"
  /-- How long an exchange may take, its body included. -/
  requestTimeoutMs : Nat := 60000
  /-- Whether the root may be a plain `http` one. -/
  allowInsecureHttp : Bool := false
  accessToken : Option String := none
  /-- What the user agent is called; the operation follows it. -/
  userAgentPrefix : String := "appengine-modules-api-rust-client"
  deriving DecidableEq, Repr

structure Settings where
  useAdminApi : Bool := false
  /-- The project, in place of the one the environment names. -/
  projectId : Option String := none
  legacy : LegacySettings := {}
  admin : AdminSettings := {}
  deriving DecidableEq, Repr

def Settings.mode (s : Settings) : Mode := .ofFlag s.useAdminApi

end ControlPlane
