import Macros.Line
import Macros.Rehearsal.Scene
import Macros.Tree.Edit

/-!
The steps of a rehearsal, and the replies to them. A cue is a list of steps that come in at a
chosen sleep, call or host call of the rehearsal.
-/

namespace Macros

/-- Who starts the macros that a line asks for. -/
inductive Starter
  | nobody
  /-- Writes the names down and starts nothing. -/
  | notes
  /-- Knows no macro. -/
  | stranger
deriving DecidableEq

inductive Step
  | line (text : String) (number : Int)
  | instruction (i : Instruction)
  | scene (cs : List SceneChange)
  | set (sect key : String) (value : Value)
  | stopEvent (b : Bool)
  | starter (w : Starter)
  | releaseAll
  | run (name : Value) (count : Option Int)
  | runByName (name : Value) (count : Option Int)
  | pause (atNextLoop : Bool)
  | resume
  | stop (atNextLoop : Bool)
  | shutdown
  | step
  | ticks (n : Nat)
  | tick
  /-- Ticks until nothing is running any more, `n` times at most. -/
  | idle (n : Nat)
  | command (text : String)
  | content
  | rename (name newName : Value)
  | edit (name contents : Value)

inductive Reply
  | nothing
  | flag (b : Bool)
  | flags (bs : List Bool)
  | count (n : Int)
  | text (s : String)
  | outcome (o : Outcome) (stopWorthy : Bool)
  | fault (f : Fault)
  /-- The tree refuses the change. -/
  | refused (e : StructuralError)
  | unreadable (e : ParseError)
  /-- No node has the name that a step asks for. -/
  | noNode
  /-- There is no desktop. -/
  | noDesktop

/-- When the steps of a cue come in. -/
inductive Occasion
  | sleep
  | call
  | hostCall
deriving DecidableEq

structure Cue where
  occasion : Occasion
  /-- The number of the event, counted from one. -/
  number : Nat
  steps : List Step

end Macros
