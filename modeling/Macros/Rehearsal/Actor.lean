import Macros.Rehearsal.Coroutine
import Macros.Rehearsal.Step
import Macros.Scheduler.Client

/-!
The actor of a rehearsal: a game client that plays on a scene, writes down what is asked of it,
and lets cues come in.
-/

namespace Macros

inductive Role
  | client
  /-- A client that tells nothing of conditions and statuses. -/
  | taciturn
  | desktop
deriving DecidableEq

/-- What the actor did. -/
inductive Deed
  | request (r : Request)
  | key (e : KeyEvent)

/-- Sleeps since the last look: their number, their sum, and the last of them. -/
structure Slept where
  count : Nat
  total : Binary64
  last : Binary64

structure Actor where
  role : Role
  scene : Scene
  desktop : Desktop
  /-- Random numbers, used in turn. -/
  random : List Binary64
  drawn : Nat
  /-- Who starts macros in place of the session. -/
  starter : Option Starter
  cues : List Cue
  /-- How many events of each kind there were. -/
  events : Occasion → Nat
  /-- The replies to the steps of each cue since the last look. -/
  replies : List (List Reply)
  /-- Deeds since the last look, the latest first. -/
  deeds : List Deed
  /-- Macros asked for since the last look, the latest first. -/
  started : List Value
  slept : Slept

namespace Slept

def none : Slept := ⟨0, .zero, .zero⟩

def add (s : Slept) (t : Binary64) : Slept := ⟨s.count + 1, s.total.add t, t⟩

end Slept

namespace Actor

def create (role : Role) (scene : Scene) (random : List Binary64) (starter : Option Starter)
    (cues : List Cue) : Actor where
  role := role
  scene := scene
  desktop := .idle
  random := random
  drawn := 0
  starter := starter
  cues := cues
  events := fun _ => 0
  replies := cues.map fun _ => []
  deeds := []
  started := []
  slept := .none

def note (a : Actor) (d : Deed) : Actor := { a with deeds := d :: a.deeds }

def countEvent (a : Actor) (o : Occasion) : Actor :=
  { a with events := fun p => if p = o then a.events o + 1 else a.events p }

def addReply (a : Actor) (cue : Nat) (r : Reply) : Actor :=
  { a with replies := a.replies.modify cue (· ++ [r]) }

/-- The next random number. -/
def draw (a : Actor) : Binary64 × Actor :=
  ((a.random[a.drawn % a.random.length]?).getD .zero, { a with drawn := a.drawn + 1 })

/-- The fault that the scene has in store for a request. -/
def crash? (a : Actor) (r : Request) : Option Fault :=
  r.word?.bind a.scene.crashes.get?

/-- Forgets what has been looked at. -/
def looked (a : Actor) : Actor :=
  { a with replies := a.cues.map fun _ => [], deeds := [], started := [], slept := .none }

end Actor

/-- A session on stage. -/
abbrev Stage := Session Actor Coroutine

namespace Stage

/-- What lets the cues of an occasion come in. -/
abbrev Prompter := Occasion → Stage → Stage

def onActor (s : Stage) (f : Actor → Actor) : Stage := { s with client := f s.client }

def sleep (prompt : Prompter) (t : Binary64) (s : Stage) : Stage :=
  prompt .sleep (onActor s fun a => { a with slept := a.slept.add t })

/-- An event goes to the focused window. -/
def strike (prompt : Prompter) (s : Stage) : KeyEvent → Stage
  | .pause t => sleep prompt t s
  | e => onActor s fun a => a.note (.key e)

/-- What the scene answers, unless it has a fault in store. -/
def react (r : Request) (s : Stage) : Except Fault Bool × Stage :=
  match s.client.crash? r with
  | some f => (.error f, s)
  | none => ((s.client.scene.holds r).mapError .misfit, s)

/-- A call on the game; without a session it is not even made. -/
def call (prompt : Prompter) (r : Request) (s : Stage) : Except Fault Bool × Stage :=
  let scene := s.client.scene
  if 0 < scene.unavailable then
    (.error (.unavailable "not logged in"),
      onActor s fun a => { a with scene := scene.change (.unavailable (scene.unavailable - 1)) })
  else react r (prompt .call (onActor s fun a => a.note (.request r)))

def ask (prompt : Prompter) (r : Request) (s : Stage) : Except Fault Bool × Stage :=
  match s.client.role, r with
  | .desktop, r =>
    let (answer, d, es) := s.client.desktop.answer r
    (answer, es.foldl (strike prompt) (onActor s fun a => { a with desktop := d }))
  | .taciturn, .hasStatus _ => (.ok false, s)
  | _, r => if r.isCall then call prompt r s else react r s

def condition (s : Stage) : Except Fault String × Stage :=
  match s.client.role with
  | .client =>
    match s.client.scene.crashes.get? "current_condition" with
    | some f => (.error f, s)
    | none =>
      match s.client.scene.condition with
      | .text name => (.ok name, s)
      | v => (.error (.misfit (v.lacks "lower")), s)
  | .taciturn | .desktop => (.ok Desktop.condition, s)

/-- What the actor does itself about a macro that a line asks for. -/
def takeStart (name : Value) (s : Stage) : Option (Except Fault Unit × Stage) :=
  match s.client.starter with
  | none => none
  | some .nobody => some (.error Execution.noRunner, s)
  | some .notes =>
    some (.ok (), onActor s fun a => { a with started := name :: a.started })
  | some .stranger => some (.error (.lookup (.missing name)), s)

def acting (prompt : Prompter) : Client Actor Coroutine where
  ready s := (s.client.role == .desktop || s.client.scene.ready, s)
  ask := ask prompt
  condition := condition
  sleep := sleep prompt
  draw s := ((s.client.draw).1, onActor s fun a => a.draw.2)
  hostCall := prompt .hostCall
  takeStart := takeStart

end Stage

end Macros
