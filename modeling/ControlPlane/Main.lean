/-
The program in its surroundings: words, variables and files come in, two texts
and an exit code go out. It opens no connections, so every request of a command
finds a network nobody answers in.
-/
import ControlPlane.CommandLine.Program

namespace ControlPlane.CommandLine

/-- Variables as the process holds them: a name, `=` and a value each, with a
zero byte after it. -/
def readVariables : IO (List (String × String)) := do
  let bytes ← IO.FS.readBinFile "/proc/self/environ"
  let entries := (Utf8.lossy bytes.toList).splitOn "\x00"
  pure (entries.filterMap fun entry =>
    match entry.splitOn "=" with
    | name :: value :: rest => some (name, "=".intercalate (value :: rest))
    | _ => none)

/-- A file's bytes. A relative path is looked for in the working directory and
in those above it; a file that is nowhere says nothing. -/
def readConfig (path : String) : IO (Option Bytes) := do
  let depth := ((← IO.currentDir).toString.splitOn "/").length
  let above (n : Nat) := String.join (List.replicate n "../") ++ path
  for candidate in if path.startsWith "/" then [path] else (List.range depth).map above do
    try return some (← IO.FS.readBinFile candidate).toList
    catch _ => pure ()
  return none

/-- Carries a dialogue through, one request after the other. -/
partial def converse (answer : Request → IO Reply) (dialogue : Exchange Output)
    (received : List Reply) : IO Output := do
  match dialogue received with
  | .ok (output, _) => pure output
  | .error request => converse answer dialogue (received ++ [← answer request])

def respond (words : List String) : IO Output := do
  match Invocation.read words with
  | .error halt => pure halt.output
  | .ok invocation =>
    let environment ← readVariables
    let file ← match invocation.config with
      | some path => readConfig path
      | none => pure none
    match invocation.access file environment with
    | .error output => pure output
    | .ok access =>
      let answer (request : Request) : IO Reply := pure (access.answer .unreachable request)
      converse answer (invocation.run access environment) []

end ControlPlane.CommandLine

def main (words : List String) : IO UInt32 := do
  let output ← ControlPlane.CommandLine.respond words
  (← IO.getStdout).putStr output.stdout
  (← IO.getStderr).putStr output.stderr
  pure (UInt32.ofNat output.exit)
