/-
The words of a command line. A word that begins with a dash is an option, or
several of one letter each; an option's value is the rest of its word or the
next word, which then may not begin with a dash; after two dashes alone every
word is an operand. What an option or operand does is up to the command, and
the first that cannot be taken, or that ends the reading, decides.
-/

namespace ControlPlane.CommandLine

/-- Why reading ends before a command is known. -/
inductive Halt
  /-- Help is asked for. -/
  | help
  /-- The version is asked for. -/
  | version
  /-- The words are no command line. -/
  | refused
  deriving DecidableEq, Repr

/-- What an option does to what has been read so far. -/
inductive Action (σ : Type)
  | flag (set : σ → Except Halt σ)
  | value (set : String → σ → Except Halt σ)

structure OptionSpec (σ : Type) where
  short : Option Char
  long : String
  action : Action σ

/-- A command: its options, what it does with an operand, and the commands that
may follow it. -/
structure Grammar (σ : Type) where
  options : List (OptionSpec σ)
  operand : String → σ → Except Halt σ := fun _ _ => .error .refused
  commands : List String := []

/-- Whether a word can be the value of the option before it. -/
def isValueWord (word : String) : Bool := word = "-" || !word.startsWith "-"

/-- A word from its first `=` on, without that. -/
def attached? (cs : List Char) : Option String :=
  match cs.dropWhile (· ≠ '=') with
  | _ :: value => some (String.ofList value)
  | [] => none

/-- The value that follows an option's letter in its word. -/
def shortValue : List Char → String
  | '=' :: value => String.ofList value
  | value => String.ofList value

/-- An option that still needs its value. -/
abbrev Wanting (σ : Type) := Option (String → σ → Except Halt σ)

namespace Grammar

variable {σ : Type}

def long? (g : Grammar σ) (name : String) : Option (Action σ) :=
  (g.options.find? (·.long = name)).map (·.action)

def short? (g : Grammar σ) (letter : Char) : Option (Action σ) :=
  (g.options.find? (·.short = some letter)).map (·.action)

/-- Reads an option written with its name. -/
def readLong (g : Grammar σ) (cs : List Char) (s : σ) : Except Halt (σ × Wanting σ) :=
  match g.long? (String.ofList (cs.takeWhile (· ≠ '='))), attached? cs with
  | some (.flag set), none => (set s).map (·, none)
  | some (.value set), some value => (set value s).map (·, none)
  | some (.value set), none => .ok (s, some set)
  | some (.flag _), some _ | none, _ => .error .refused

/-- Reads options of one letter each. -/
def readShort (g : Grammar σ) : List Char → σ → Except Halt (σ × Wanting σ)
  | [], s => .ok (s, none)
  | c :: rest, s =>
    match g.short? c with
    | none => .error .refused
    | some (.flag set) => do readShort g rest (← set s)
    | some (.value set) =>
      if rest.isEmpty then .ok (s, some set) else (set (shortValue rest) s).map (·, none)

def readOption (g : Grammar σ) (word : String) (s : σ) : Except Halt (σ × Wanting σ) :=
  match word.toList with
  | '-' :: '-' :: cs => g.readLong cs s
  | _ :: cs => g.readShort cs s
  | [] => .error .refused

/-- What has been read, and the command that follows with its words. -/
abbrev Reading (σ : Type) := σ × Option (String × List String)

/-- Reads words up to their end or to a command. -/
def read (g : Grammar σ) : List String → σ → Except Halt (Reading σ)
  | [], s => .ok (s, none)
  | word :: rest, s =>
    if word ∈ g.commands then .ok (s, some (word, rest))
    else if word = "--" then (rest.foldlM (fun s operand => g.operand operand s) s).map (·, none)
    else if isValueWord word then do read g rest (← g.operand word s)
    else
      match g.readOption word s with
      | .error halt => .error halt
      | .ok (s, none) => read g rest s
      | .ok (s, some set) =>
        match rest with
        | [] => .error .refused
        | value :: rest =>
          if isValueWord value then do read g rest (← set value s) else .error .refused

end Grammar
end ControlPlane.CommandLine
