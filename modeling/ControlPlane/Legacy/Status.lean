/-
How a call of the legacy service ends on the wire. A call that fails does so
with a status, whose metadata may name an application error; when that can be
read, it says more than the status code and wins over it.
-/
import ControlPlane.Request
import ControlPlane.Text.Blank

namespace ControlPlane.Legacy

/-- The metadata of a failed call that holds the application error. -/
def applicationErrorKey : String := "x-modules-application-error"

structure Status where
  code : Rpc.Code
  message : String
  /-- The entries in their order, with their names in lower case. -/
  metadata : List (String × Bytes) := []
  deriving DecidableEq, Repr

namespace Status

/-- The bytes of the application error, if there are any. Of several entries the
first counts. -/
def applicationError (s : Status) : Option Bytes := s.metadata.lookup applicationErrorKey

/-- Bytes that metadata may hold as text. -/
def isTextByte (b : UInt8) : Bool := (0x20 ≤ b && b ≤ 0x7E) || b == 0x09

def chars (bytes : Bytes) : List Char := bytes.map fun b => Char.ofNat b.toNat

/-- The application code that metadata gives, if it is text and the text is a
number of 32 bits. -/
def applicationCode? (bytes : Bytes) : Option Int :=
  if bytes.all isTextByte then
    Decimal.signed32? (Text.trimChars (chars bytes))
  else none

def fault (s : Status) : Fault :=
  match s.applicationError.bind applicationCode? with
  | some code => .application code s.message
  | none => .rpc s.code s.message

/-- The status of a call cut off by its deadline. -/
def timeout : Status := ⟨.cancelled, "Timeout expired", []⟩

end Status

/-- How a call ended. -/
inductive Ending
  | replied (message : Bytes)
  | failed (status : Status)
  /-- The deadline passed. -/
  | expired
  /-- There is no connection, and why. -/
  | unreachable (reason : String)

/-- What the end of a call means. -/
def Ending.reply : Ending → Reply
  | replied message => .ok message
  | failed status => .error status.fault
  | expired => .error Status.timeout.fault
  | unreachable reason => .error (.rpc .unavailable reason)

end ControlPlane.Legacy
