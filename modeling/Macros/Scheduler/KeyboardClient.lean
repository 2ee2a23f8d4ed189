import Macros.Input.Keyboard
import Macros.Scheduler.Client

/-!
Running macros with nothing but the keyboard. What lines send to the focused window, and the
pauses between, are put into a queue, which whoever drives the session plays in real time. There
is no script language.
-/

namespace Macros

structure KeyboardQueue where
  desktop : Desktop
  /-- What is still to be played, the latest first. -/
  queue : List KeyEvent
  random : StdGen

/-- A script language that has no scripts. -/
def Interpreter.absent : Interpreter Empty where
  load _ := .error (.script "No script language is installed")
  send script _ := nomatch script

namespace KeyboardQueue

def start (seed : Nat) : KeyboardQueue := ⟨.idle, [], mkStdGen seed⟩

def add (k : KeyboardQueue) (es : List KeyEvent) : KeyboardQueue :=
  { k with queue := es.reverse ++ k.queue }

/-- How many random numbers there are between zero and one. -/
def randomSteps : Nat := twoTo 53

/-- A random number from zero on and below one. -/
def draw (k : KeyboardQueue) : Binary64 × KeyboardQueue :=
  let (n, g) := randNat k.random 0 (randomSteps - 1)
  (.ofRatio false (n * twoTo Binary64.unitBits) randomSteps, { k with random := g })

def answer (k : KeyboardQueue) (r : Request) : Except Fault Bool × KeyboardQueue :=
  let (a, d, es) := k.desktop.answer r
  (a, { k with desktop := d }.add es)

/-- Lets go of all keys that are held. -/
def releaseAll (k : KeyboardQueue) : KeyboardQueue :=
  let (d, es) := k.desktop.releaseAll
  { k with desktop := d }.add es

/-- What is to be played next, in order. -/
def toPlay (k : KeyboardQueue) : List KeyEvent := k.queue.reverse

def played (k : KeyboardQueue) : KeyboardQueue := { k with queue := [] }

def client : Client KeyboardQueue Empty where
  ready s := (true, s)
  ask r s := ((s.client.answer r).1, { s with client := (s.client.answer r).2 })
  condition s := (.ok Desktop.condition, s)
  sleep t s := { s with client := s.client.add [.pause t] }
  draw s := ((s.client.draw).1, { s with client := (s.client.draw).2 })
  hostCall s := s
  takeStart _ _ := none

end KeyboardQueue

end Macros
