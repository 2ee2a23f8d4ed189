import Macros.CommandLine.Control
import Macros.Rehearsal.Actor
import Macros.Scheduler.Advance

/-!
Rehearsing: a session is taken through steps, one after the other, and cues come in while a step
is under way. An event that a cue waits for happens once, so cues are nested no deeper than there
are cues.
-/

namespace Macros

namespace Stage

/-- What a step comes to, and the session after it. -/
abbrev Played := Reply × Stage

def reply {α : Type} (f : α → Reply) : Except Fault α × Stage → Played
  | (.ok a, s) => (f a, s)
  | (.error e, s) => (.fault e, s)

/-- Runs one instruction by itself. -/
def playInstruction (c : Client Actor Coroutine) (b : Bridge Coroutine) (i : Instruction)
    (s : Stage) : Played :=
  match (Execution.execute s.settings i).run.run (Session.answer c b) s with
  | (.error f, s) => (.fault f, s)
  | (.ok o, s) =>
    match s.settings.isStopWorthy o with
    | .ok w => (.outcome o w, s)
    | .error e => (.fault (.option e), s)

def playLine (c : Client Actor Coroutine) (b : Bridge Coroutine) (text : String) (number : Int)
    (s : Stage) : Played :=
  match Line.read s.registry text number with
  | .error e => (.unreadable e, s)
  | .ok none => (.nothing, s)
  | .ok (some i) => playInstruction c b i s

/-- Ticks `n` times; each says whether a frame advanced. -/
def ticks (c : Client Actor Coroutine) (b : Bridge Coroutine) :
    Nat → Stage → Except Fault (List Bool) × Stage
  | 0, s => (.ok [], s)
  | n + 1, s =>
    match s.tick c b with
    | (.error f, s) => (.error f, s)
    | (.ok advanced, s) =>
      match ticks c b n s with
      | (.error f, s) => (.error f, s)
      | (.ok rest, s) => (.ok (advanced :: rest), s)

/-- The number of ticks until nothing is running, `done` of them before; -1 if `n` more are not
enough. -/
def ticksToIdle (c : Client Actor Coroutine) (b : Bridge Coroutine) :
    (n : Nat) → (done : Nat) → Stage → Except Fault Int × Stage
  | 0, _, s => (.ok (-1), s)
  | n + 1, done, s =>
    match s.tick c b with
    | (.error f, s) => (.error f, s)
    | (.ok _, s) =>
      if s.isActive then ticksToIdle c b n (done + 1) s else (.ok (done + 1 : Nat), s)

/-- Plays a step on the first node that has the name. -/
def onNode (name : Value) (s : Stage) (play : NodeId → Played) : Played :=
  match s.tree.flatten.find? (s.tree.isNamed name) with
  | some n => play n
  | none => (.noNode, s)

def rename (s : Stage) (n : NodeId) (name : Value) : Played :=
  match s.tree.rename n name with
  | .ok t => (.text (t.name n).plain, { s with tree := t })
  | .error e => (.refused e, s)

/-- Changes the text of a macro; macros in progress go on with the text that they have. -/
def edit (s : Stage) (n : NodeId) (contents : Value) : Played :=
  match s.tree.body? n with
  | some body =>
    (.nothing, { s with
      tree := s.tree.setNode n (.leaf (s.tree.name n) { body with contents := contents }) })
  | none => (.nothing, s)

def releaseAll (prompt : Prompter) (s : Stage) : Played :=
  if s.client.role == .desktop then
    let (d, es) := s.client.desktop.releaseAll
    (.nothing, es.foldl (strike prompt) (onActor s fun a => { a with desktop := d }))
  else (.noDesktop, s)

/-- Somebody else starts macros now, or nobody does. -/
def setStarter (s : Stage) (w : Starter) : Stage := onActor s fun a => { a with starter := some w }

/-- After a shutdown nobody starts macros. -/
def shutdown (s : Stage) : Stage := setStarter (Session.shutdown s) .nobody

def play (prompt : Prompter) (b : Bridge Coroutine) (s : Stage) : Step → Played
  | .line text number => playLine (acting prompt) b text number s
  | .instruction i => playInstruction (acting prompt) b i s
  | .scene cs => (.nothing, onActor s fun a => { a with scene := a.scene.changeAll cs })
  | .set sect key value =>
    let (done, settings) := s.settings.assign sect key value
    let s := { s with settings := settings }
    match done with
    | .ok _ => (.nothing, s)
    | .error e => (.fault (.option e), s)
  | .stopEvent b => (.nothing, { s with stopEvent := b })
  | .starter w => (.nothing, setStarter s w)
  | .releaseAll => releaseAll prompt s
  | .run name count => onNode name s fun n => reply .flag (s.run b n count)
  | .runByName name count => reply .flag (s.runByName b name count)
  | .pause atNextLoop => (.nothing, s.pause atNextLoop)
  | .resume => (.nothing, s.resume)
  | .stop atNextLoop => (.nothing, s.stop atNextLoop)
  | .shutdown => (.nothing, shutdown s)
  | .step => reply .flag (s.step (acting prompt) b)
  | .tick => reply .flag (s.tick (acting prompt) b)
  | .ticks n => reply .flags (ticks (acting prompt) b n s)
  | .idle n => reply .count (ticksToIdle (acting prompt) b n 0 s)
  | .command text => reply .text (s.command b text)
  | .content => (.text s.currentText, s)
  | .rename name newName => onNode name s fun n => rename s n newName
  | .edit name contents => onNode name s fun n => edit s n contents

/-- Plays the steps of cue number `cue` and writes the replies down. -/
def playCue (prompt : Prompter) (b : Bridge Coroutine) (cue : Nat) (steps : List Step)
    (s : Stage) : Stage :=
  steps.foldl (fun s next =>
    let (r, s) := play prompt b s next
    onActor s fun a => a.addReply cue r) s

/-- Lets cues come in, in their order, with cues nested in cues down to a depth. -/
def promptTo (b : Bridge Coroutine) : (depth : Nat) → Prompter
  | 0, o, s => onActor s fun a => a.countEvent o
  | d + 1, o, s =>
    let s := onActor s fun a => a.countEvent o
    let number := s.client.events o
    s.client.cues.zipIdx.foldl (fun s (cue, i) =>
      if cue.occasion = o && cue.number = number then playCue (promptTo b d) b i cue.steps s
      else s) s

/-- Plays a step; every cue may come in. -/
def perform (b : Bridge Coroutine) (s : Stage) (next : Step) : Played :=
  play (promptTo b s.client.cues.length) b s next

/-- Forgets what observers have been told. -/
def looked (s : Stage) : Stage :=
  { onActor s fun a => a.looked with journal := [] }

end Stage

end Macros
