import Macros.Script.Run
import Macros.Table
import Macros.Text.Blank

/-!
Scripts for rehearsals: step programs that stand in for a script language. A program yields lines
and sees what came of the last one.
-/

namespace Macros

inductive ScriptStep
  | yield (v : Value)
  /-- Yields a text that ends in what came of the last line. -/
  | yieldLast (start : String)
  | hostCall
  | fail (why : ScriptFailure)
  /-- One of two programs, by whether the last line went well. -/
  | branch (yes no : List ScriptStep)
  | again (times : Nat) (body : List ScriptStep)
  | finish

/-- A program that cannot be loaded is the reason why. -/
abbrev ScriptProgram := Except ScriptFailure (List ScriptStep)

namespace ScriptStep

mutual

/-- How many steps a program can take at most. -/
def weight : ScriptStep → Nat
  | branch yes no => 1 + weightAll yes + weightAll no
  | again times body => 1 + times * (1 + weightAll body)
  | yield _ | yieldLast _ | hostCall | fail _ | finish => 1

def weightAll : List ScriptStep → Nat
  | [] => 0
  | p :: ps => weight p + weightAll ps

end

theorem weightAll_append (ps qs : List ScriptStep) :
    weightAll (ps ++ qs) = weightAll ps + weightAll qs := by
  induction ps with
  | nil => simp [weightAll]
  | cons p ps ih => simp [weightAll, ih]; omega

end ScriptStep

/-- A suspended program: what is left of it, and what came of the last line; `waiting` once a line
has been yielded. -/
structure Coroutine where
  rest : List ScriptStep
  last : Value
  waiting : Bool

namespace Coroutine

open ScriptStep in
/-- Goes on to the next line, counting host calls on the way. -/
def proceed (last : Value) (hostCalls : Nat) (ps : List ScriptStep) : Advance Coroutine :=
  match ps with
  | [] => ⟨hostCalls, .returned⟩
  | .yield v :: ps => ⟨hostCalls, .yielded v ⟨ps, last, true⟩⟩
  | .yieldLast start :: ps => ⟨hostCalls, .yielded (.text (start ++ last.plain)) ⟨ps, last, true⟩⟩
  | .hostCall :: ps => proceed last (hostCalls + 1) ps
  | .fail why :: _ => ⟨hostCalls, .failed why⟩
  | .branch yes no :: ps => proceed last hostCalls ((if last.truthy then yes else no) ++ ps)
  | .again 0 _ :: ps => proceed last hostCalls ps
  | .again (n + 1) body :: ps => proceed last hostCalls (body ++ .again n body :: ps)
  | .finish :: _ => ⟨hostCalls, .returned⟩
termination_by weightAll ps
decreasing_by
  · simp [weightAll, weight]
  · rw [weightAll_append]
    simp only [weightAll, weight]
    split <;> omega
  · simp [weightAll, weight]
  · rw [weightAll_append]
    simp only [weightAll, weight, Nat.succ_mul]
    omega

def send (c : Coroutine) (v : Value) : Advance Coroutine :=
  proceed (if c.waiting then v else c.last) 0 c.rest

/-- Finds programs by the source of a macro, which is trimmed. -/
def load (programs : Table ScriptProgram) (r : LoadRequest) : Except ScriptFailure Coroutine :=
  match r.source with
  | .text s =>
    let source := Text.trim s
    match programs.get? source with
    | none => .error (.other (Text.quoted source))
    | some (.error why) => .error why
    | some (.ok ps) => .ok ⟨ps, .null, false⟩
  | v => .error (.other (v.lacks "strip").message)

def interpreter (programs : Table ScriptProgram) : Interpreter Coroutine := ⟨load programs, send⟩

end Coroutine

end Macros
