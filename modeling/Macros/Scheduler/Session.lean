import Macros.Execution.Line
import Macros.Grammar.Builtin
import Macros.Script.Bridge
import Macros.Tree.Edit

/-!
The state of a run: a stack of macros in progress, the run state, and a journal of what observers
were told. A frame is told from others by its number, so that it can be found again after control
calls have changed the stack.
-/

namespace Macros

inductive RunState
  | idle
  | running
  | paused
  | notReady
deriving DecidableEq

def RunState.label : RunState → String
  | idle => "idle"
  | running => "running"
  | paused => "paused"
  | notReady => "not_ready"

inductive FrameResult
  | completed
  | failed
  | stopped
deriving DecidableEq

/-- The control calls that may come at any moment, also while a line is being run. -/
inductive Control
  | run (node : NodeId) (count : Option Int)
  | runByName (name : String) (count : Option Int)
  | pause (atNextLoop : Bool)
  | resume
  | stop (atNextLoop : Bool)
deriving DecidableEq

namespace FrameResult

def label : FrameResult → String
  | completed => "completed"
  | failed => "failed"
  | stopped => "stopped"

def level : FrameResult → Level
  | completed => .success
  | failed => .error
  | stopped => .info

end FrameResult

/-- A native macro in progress: the next instruction, and for each loop line that was passed how
often it still goes back. -/
structure NativeWork where
  instructions : List Instruction
  cursor : Nat
  counters : List (Nat × Int)
  loopsDone : Nat

/-- A script in progress. `pendingResult` is sent with the next step; `pendingLine` is a line that
an outage interrupted; `steps` counts the lines yielded. -/
structure ScriptWork (τ : Type) where
  run : ScriptRun τ
  pendingResult : Value
  pendingLine : Option String
  steps : Nat

def NativeWork.start (is : List Instruction) : NativeWork := ⟨is, 0, [], 0⟩

def ScriptWork.start {τ : Type} (run : ScriptRun τ) : ScriptWork τ := ⟨run, .null, none, 0⟩

inductive Work (τ : Type)
  | native (w : NativeWork)
  | script (w : ScriptWork τ)

structure Frame (τ : Type) where
  id : Nat
  node : NodeId
  /-- The text that is run, after templates. -/
  text : String
  pauseAtLoop : Bool
  stopAtLoop : Bool
  work : Work τ

namespace Frame

variable {τ : Type}

/-- The next instruction of a native macro, the lines yielded so far of a script. -/
def position (f : Frame τ) : Nat :=
  match f.work with
  | .native w => w.cursor
  | .script w => w.steps

/-- The next instruction; scripts have a mark of their own. -/
def cursor (f : Frame τ) : Int :=
  match f.work with
  | .native w => w.cursor
  | .script _ => Limits.embeddedStep

def isScript (f : Frame τ) : Bool :=
  match f.work with
  | .native _ => false
  | .script _ => true

end Frame

/-- What observers are told, and what else a run leaves a trace of. -/
inductive Event
  | log (level : Level) (message : Value)
  | state (s : RunState)
  | status (frames : List (Value × Nat))
  | loop (name : Value) (done : Nat) (count : Option Int)
  | finished (name : Value) (result : FrameResult)
  | loaded (request : LoadRequest)
  /-- An instruction of a frame is handed over to be run. -/
  | handed (frame : Nat) (i : Instruction)
  /-- An instruction of a frame came to an outcome. -/
  | settled (frame : Nat) (i : Instruction) (o : Outcome)
  /-- A value is sent into the script of a frame. -/
  | sent (frame : Nat) (value : Value)
  /-- The script of a frame is closed. -/
  | closed (frame : Nat)
  /-- A frame is put on the stack. -/
  | pushed (frame : Nat)
  /-- A frame is taken off the stack. -/
  | popped (frame : Nat) (result : FrameResult)
  /-- A control call comes in. -/
  | calling (c : Control)
  /-- A control call returns; `started` says whether it started a macro. -/
  | called (c : Control) (started : Bool)

/-- The macros in progress and all that they depend on. `σ` is the state of the game client, `τ` a
suspended script. -/
structure Session (σ τ : Type) where
  tree : Tree
  settings : Settings
  registry : Registry
  /-- The frames, the outermost first. -/
  stack : List (Frame τ)
  state : RunState
  /-- The state to go back to when the client is ready again. -/
  prior : RunState
  closed : Bool
  /-- The stop is cleared when a new run first advances. -/
  freshRun : Bool
  stopEvent : Bool
  hasRunner : Bool
  nextId : Nat
  /-- What observers were told, the latest first. -/
  journal : List Event
  client : σ

namespace Session

variable {σ τ : Type}

/-- Nothing is running. -/
def idle (tree : Tree) (settings : Settings) (registry : Registry) (client : σ) : Session σ τ where
  tree := tree
  settings := settings
  registry := registry
  stack := []
  state := .idle
  prior := .idle
  closed := false
  freshRun := false
  stopEvent := false
  hasRunner := true
  nextId := 0
  journal := []
  client := client

def record (s : Session σ τ) (e : Event) : Session σ τ := { s with journal := e :: s.journal }

def say (s : Session σ τ) (level : Level) (message : Value) : Session σ τ :=
  s.record (.log level message)

def log (s : Session σ τ) (level : Level) (message : String) : Session σ τ :=
  s.say level (.text message)

def isRunning (s : Session σ τ) : Bool := s.state == .running

def isActive (s : Session σ τ) : Bool := s.state != .idle

def nameOf (s : Session σ τ) (f : Frame τ) : Value := s.tree.name f.node

/-- Name and position of every frame, the outermost first. -/
def status (s : Session σ τ) : List (Value × Nat) :=
  s.stack.map fun f => (s.nameOf f, f.position)

def emitStatus (s : Session σ τ) : Session σ τ := s.record (.status s.status)

def setState (s : Session σ τ) (state : RunState) : Session σ τ :=
  if state = s.state then s else { s with state := state }.record (.state state)

def top? (s : Session σ τ) : Option (Frame τ) := s.stack.getLast?

/-- The text of the innermost macro. -/
def currentText (s : Session σ τ) : String := (s.top?.map (·.text)).getD ""

def currentStep (s : Session σ τ) : Option Int := s.top?.map (·.cursor)

def frame? (s : Session σ τ) (id : Nat) : Option (Frame τ) := s.stack.find? (·.id = id)

/-- Is the frame still in progress? -/
def owns (s : Session σ τ) (id : Nat) : Bool := s.stack.any (·.id = id)

/-- Changes a frame, if it is still in progress. -/
def modify (s : Session σ τ) (id : Nat) (f : Frame τ → Frame τ) : Session σ τ :=
  { s with stack := s.stack.map fun g => if g.id = id then f g else g }

def modifyNative (s : Session σ τ) (id : Nat) (f : NativeWork → NativeWork) : Session σ τ :=
  s.modify id fun g =>
    match g.work with
    | .native w => { g with work := .native (f w) }
    | .script _ => g

def modifyScript (s : Session σ τ) (id : Nat) (f : ScriptWork τ → ScriptWork τ) : Session σ τ :=
  s.modify id fun g =>
    match g.work with
    | .native _ => g
    | .script w => { g with work := .script (f w) }

/-- Takes a frame off the stack and reports how it ended. -/
def pop (s : Session σ τ) (f : Frame τ) (result : FrameResult) : Session σ τ :=
  let name := s.nameOf f
  let s := { s with stack := s.stack.filter (·.id != f.id) }
  let s := s.record (.popped f.id result)
  let s := if f.isScript then s.record (.closed f.id) else s
  let s := s.log result.level ("Macro " ++ name.quoted ++ " " ++ result.label)
  let s := s.record (.finished name result)
  let s := if s.stack.isEmpty then s.setState .idle else s
  s.emitStatus

/-- Takes all frames off, the innermost first. -/
def clear (s : Session σ τ) (result : FrameResult) : Session σ τ :=
  s.stack.reverse.foldl (fun s f => s.pop f result) s

def enterNotReady (s : Session σ τ) : Session σ τ :=
  if s.state = .notReady || s.stack.isEmpty then s
  else
    ({ s with prior := s.state }.setState .notReady).log .warning
      "Environment not ready, waiting"

def leaveNotReady (s : Session σ τ) : Session σ τ :=
  (s.setState (if s.stack.isEmpty then .idle else s.prior)).log .info "Environment ready again"

end Session

end Macros
