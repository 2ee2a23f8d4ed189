import Macros.Number.Numeral
import Macros.Text.Blank
import Macros.Text.Case
import Macros.Text.Quoted

/-!
Text commands that control a run. A name is whatever follows the words of the command, blanks
inside of it included.
-/

namespace Macros

inductive Command
  | help
  /-- Runs the one macro with the name, with its last loop set to the count if there is one. -/
  | run (count : Option Int) (name : String)
  | pause (atNextLoop : Bool)
  | resume
  | stop (atNextLoop : Bool)
deriving DecidableEq

/-- Why a text is no command. -/
inductive CommandError
  | countNotNumber (word : String)
  | negativeCount
  | missingName
  | unknown (text : String)
deriving DecidableEq

/-- A line of the list of commands. -/
structure CommandHelp where
  usage : String
  description : String
  sample : Option String

namespace Command

def list : List CommandHelp := [
  ⟨"help", "Show this list.", none⟩,
  ⟨"run", "Run a macro, the name must be unique.", some "run MyMacro"⟩,
  ⟨"run loop #", "Run a macro with its last /loop set to N (appended if missing).",
    some "run loop 5 MyMacro"⟩,
  ⟨"pause", "Pause the currently executing macro.", none⟩,
  ⟨"pause loop", "Pause the currently executing macro at the next /loop.", none⟩,
  ⟨"resume", "Resume the currently paused macro.", none⟩,
  ⟨"stop", "Clear the currently executing macro list.", none⟩,
  ⟨"stop loop", "Clear the currently executing macro list at the next /loop.", none⟩]

def usage : String := "Usage: " ++ " | ".intercalate (list.map (·.usage))

/-- The width of the first column of the list. -/
def usageWidth : Nat := (list.map (·.usage.length)).foldl max 0

def padded (s : String) : String := s ++ String.ofList (List.replicate (usageWidth - s.length) ' ')

def helpLine (h : CommandHelp) : String :=
  padded h.usage ++ "  " ++ h.description ++
    match h.sample with
    | some s => "  (e.g. " ++ s ++ ")"
    | none => ""

def helpText : String := "\n".intercalate (list.map helpLine)

/-- The name of the macro to run; it cannot be empty. -/
def readName (count : Option Int) (rest : List Char) : Except CommandError Command :=
  if rest.isEmpty then .error .missingName else .ok (run count (String.ofList rest))

/-- Is this the word that announces a loop count? -/
def isLoopWord (word : List Char) : Bool := Text.lowerChars word = "loop".toList

/-- What to run: a name, or `loop`, a count and a name. -/
def readRun (rest : List Char) : Except CommandError Command :=
  match Text.wordsUpTo 2 rest with
  | word :: count :: name =>
    if isLoopWord word then
      match Numeral.integer? (String.ofList count) with
      | none => .error (.countNotNumber (String.ofList count))
      | some n =>
        if n < 0 then .error .negativeCount
        else readName (some n) (Text.trimChars name.flatten)
    else readName none rest
  | _ => readName none rest

/-- Reads a command. A blank text asks for help. -/
def read (text : String) : Except CommandError Command :=
  let trimmed := Text.trim text
  let (head, rest) := Text.nextWord trimmed.toList
  let verb := Text.lower (String.ofList head)
  let now := rest.isEmpty
  let atNextLoop := String.ofList rest = "loop"
  if head.isEmpty || verb = "help" then .ok help
  else if verb = "run" then readRun rest
  else if verb = "pause" && (now || atNextLoop) then .ok (pause atNextLoop)
  else if verb = "resume" && now then .ok resume
  else if verb = "stop" && (now || atNextLoop) then .ok (stop atNextLoop)
  else .error (.unknown trimmed)

end Command

def CommandError.message : CommandError → String
  | countNotNumber w => "Loop count must be a number, got " ++ Text.quoted w
  | negativeCount => "Loop count must not be negative"
  | missingName => "Missing macro name. " ++ Command.usage
  | unknown t => "Unknown command: " ++ Text.quoted t ++ ". " ++ Command.usage

end Macros
