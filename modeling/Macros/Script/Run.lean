import Macros.Value

/-!
A script in progress. It is advanced one step at a time: a step sends it the result of the last
line, and the script either yields the next line, or ends, or fails. Calls to host functions made
on the way do not suspend it.
-/

namespace Macros

/-- An error of a script; one that does not come from the script language carries only a text. -/
inductive ScriptFailure
  | script (message : String)
  | other (message : String)
deriving DecidableEq

/-- How a step of a script ends. -/
inductive Signal (τ : Type)
  | yielded (value : Value) (next : τ)
  | returned
  | failed (why : ScriptFailure)

/-- One step of a script: the host calls on the way, and how it ends. -/
structure Advance (τ : Type) where
  hostCalls : Nat
  signal : Signal τ

/-- What loading a macro asks an interpreter for. -/
structure LoadRequest where
  source : Value
  name : Value
  libraries : List Value
  requirePaths : List String

/-- A script language. `τ` is a suspended script. -/
structure Interpreter (τ : Type) where
  load : LoadRequest → Except ScriptFailure τ
  send : τ → Value → Advance τ

/-- The message of a failure; one from elsewhere is put under the name of the script. -/
def ScriptFailure.text (name : String) : ScriptFailure → String
  | script m => m
  | other m => name ++ ": " ++ m

/-- A script and how far it is. While a step is under way the script cannot be advanced again. -/
structure ScriptRun (τ : Type) where
  name : String
  script : τ
  started : Bool
  finished : Bool
  stepping : Bool
  yields : Nat

namespace ScriptRun

variable {τ : Type}

def create (name : String) (script : τ) : ScriptRun τ := ⟨name, script, false, false, false, 0⟩

def close (r : ScriptRun τ) : ScriptRun τ := { r with finished := true }

/-- What comes of asking for the next line. -/
inductive Next (τ : Type)
  | ended
  | failed (message : String)
  | under (advance : Advance τ)

def busyMessage : String := "generator already executing"

/-- Begins a step. The first value sent is always `null`. -/
def begin (interp : Interpreter τ) (r : ScriptRun τ) (result : Value) : ScriptRun τ × Next τ :=
  if r.finished then (r, .ended)
  else if r.stepping then
    ({ r with started := true, finished := true },
      .failed (ScriptFailure.text r.name (.other busyMessage)))
  else
    ({ r with started := true, stepping := true },
      .under (interp.send r.script (if r.started then result else .null)))

/-- The line that a yielded value stands for. -/
def lineOf : Value → String
  | .null => ""
  | v => v.plain

/-- Ends a step: the next line, or the end of the script. -/
def finish (r : ScriptRun τ) : Signal τ → ScriptRun τ × Except String (Option String)
  | .yielded v next =>
    ({ r with script := next, stepping := false, yields := r.yields + 1 }, .ok (some (lineOf v)))
  | .returned => ({ r with stepping := false, finished := true }, .ok none)
  | .failed why =>
    ({ r with stepping := false, finished := true }, .error (why.text r.name))

/-- A whole step, when nothing happens on the way. -/
def resume (interp : Interpreter τ) (r : ScriptRun τ) (result : Value) :
    ScriptRun τ × Except String (Option String) :=
  match r.begin interp result with
  | (r, .ended) => (r, .ok none)
  | (r, .failed m) => (r, .error m)
  | (r, .under a) => r.finish a.signal

end ScriptRun

end Macros
