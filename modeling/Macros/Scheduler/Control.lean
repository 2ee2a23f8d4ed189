import Macros.Scheduler.Session

/-!
Control of a run: starting macros, pausing, resuming and stopping. Every call is one step and may
come at any moment, also while a line is being run.
-/

namespace Macros

namespace Session

variable {σ τ : Type}

/-- The text of a macro, put into the craft-loop template if the macro asks for that. -/
def wrappedText (s : Session σ τ) (body : Body) :
    Except Fault (Except CraftLoop.TemplateError Value) :=
  if body.craftLoop then
    match s.settings.craftLoopEnabled with
    | .error e => .error (.option e)
    | .ok true =>
      match CraftLoop.wrap body.contents body.craftLoopCount s.settings.craftLoopTemplate with
      | .error m => .error (.misfit m)
      | .ok wrapped => .ok (wrapped.map .text)
    | .ok false => .ok (.ok body.contents)
  else .ok (.ok body.contents)

/-- The text that a native macro is run as. -/
def runText (s : Session σ τ) (body : Body) (count : Option Int) :
    Except Fault (Except CraftLoop.TemplateError String) :=
  match s.wrappedText body, count with
  | .error f, _ => .error f
  | .ok (.error e), _ => .ok (.error e)
  | .ok (.ok (.text text)), none => .ok (.ok text)
  | .ok (.ok (.text text)), some n =>
    match CraftLoop.overrideLast s.registry text n with
    | .ok text => .ok (.ok text)
    | .error e => .error (.write e)
  | .ok (.ok v), _ => .error (.misfit (v.lacks "splitlines"))

/-- A native macro, ready to be pushed; without one the reason is in the journal. -/
def buildNative (s : Session σ τ) (name : Value) (body : Body) (count : Option Int) :
    Except Fault (Option (String × Work τ)) × Session σ τ :=
  match s.runText body count with
  | .error f => (.error f, s)
  | .ok (.error e) => (.ok none, s.log .error (name.plain ++ ": " ++ e.message))
  | .ok (.ok text) =>
    match Line.readAll s.registry text with
    | .error e =>
      (.ok none,
        s.log .error (name.plain ++ " line " ++ toString (e.line + 1) ++ ": " ++ e.message))
    | .ok is => (.ok (some (text, .native (NativeWork.start is))), s)

/-- A loop count means nothing to a script. -/
def ignoreCount (s : Session σ τ) (name : Value) : Option Int → Session σ τ
  | some n => s.log .warning (name.plain ++ ": loop count " ++ toString n
      ++ " ignored, Lua macros have no /loop to rewrite")
  | none => s

/-- A script, ready to be pushed. -/
def buildScript (b : Bridge τ) (s : Session σ τ) (name : Value) (body : Body)
    (count : Option Int) : Option (String × Work τ) × Session σ τ :=
  let s := s.ignoreCount name count
  let request := b.request name body.contents s.settings.requirePaths
  let s := s.record (.loaded request)
  match b.start request with
  | .error m => (none, s.log .error ("Script error: " ++ m))
  | .ok run => (some (body.contents.plain, .script (ScriptWork.start run)), s)

/-- Pushes a frame. -/
def push (s : Session σ τ) (node : NodeId) (text : String) (work : Work τ) : Session σ τ :=
  let id := s.nextId
  let s := if s.stack.isEmpty then { s with freshRun := true } else s
  let s := { s with
    stack := s.stack ++ [Frame.mk id node text false false work]
    nextId := id + 1 }
  let s := s.record (.pushed id)
  let s := if s.state = .notReady then { s with prior := .running } else s.setState .running
  (s.log .info ("Running macro " ++ (s.tree.name node).quoted)).emitStatus

/-- A macro in its language, ready to be pushed. -/
def build (b : Bridge τ) (s : Session σ τ) (name : Value) (body : Body) (count : Option Int) :
    Except Fault (Option (String × Work τ)) × Session σ τ :=
  match body.language with
  | .lua => (.ok (s.buildScript b name body count).1, (s.buildScript b name body count).2)
  | .native => s.buildNative name body count

/-- Starts a macro on top of those in progress; says whether it was pushed. -/
def run (b : Bridge τ) (s : Session σ τ) (node : NodeId) (count : Option Int) :
    Except Fault Bool × Session σ τ :=
  if s.closed then (.ok false, s.log .warning "Scheduler has been shut down")
  else
    let name := s.tree.name node
    match s.tree.body? node with
    | none => (.ok false, s.log .warning (name.quoted ++ " is a folder and cannot be run"))
    | some body =>
      match s.build b name body count with
      | (.error f, s) => (.error f, s)
      | (.ok none, s) => (.ok false, s)
      | (.ok (some (text, work)), s) =>
        if Limits.maxFrameDepth ≤ s.stack.length then
          (.ok false, s.log .error ("Cannot run " ++ name.quoted ++ ": more than "
            ++ toString Limits.maxFrameDepth ++ " nested macros"))
        else (.ok true, s.push node text work)

/-- Starts the one macro that has the name. -/
def runByName (b : Bridge τ) (s : Session σ τ) (name : Value) (count : Option Int) :
    Except Fault Bool × Session σ τ :=
  match s.tree.findLeaves name with
  | [] => (.error (.lookup (.missing name)), s)
  | [node] => s.run b node count
  | nodes => (.error (.lookup (.ambiguous nodes.length name)), s)

/-- Starts a macro for a line. -/
def runNested (b : Bridge τ) (s : Session σ τ) (name : Value) :
    Except Fault Unit × Session σ τ :=
  if !s.hasRunner then (.error Execution.noRunner, s)
  else
    match s.runByName b name none with
    | (.error f, s) => (.error f, s)
    | (.ok true, s) => (.ok (), s)
    | (.ok false, s) =>
      (.error (.failed .unsupported ("Could not start macro " ++ name.quoted)), s)

/-- Marks the innermost frame. -/
def markTop (s : Session σ τ) (f : Frame τ → Frame τ) : Session σ τ :=
  match s.top? with
  | some g => s.modify g.id f
  | none => s

def pauseAtLoop (s : Session σ τ) : Session σ τ :=
  if s.stack.isEmpty || s.state = .paused then s
  else (s.markTop fun f => { f with pauseAtLoop := true }).log .info "Pausing at the next loop"

def pauseNow (s : Session σ τ) : Session σ τ :=
  if s.state = .running then (s.setState .paused).log .info "Paused"
  else if s.state = .notReady && s.prior = .running then { s with prior := .paused }
  else s

def pause (s : Session σ τ) (atNextLoop : Bool) : Session σ τ :=
  if atNextLoop then s.pauseAtLoop else s.pauseNow

def resume (s : Session σ τ) : Session σ τ :=
  if s.state = .paused && !s.stack.isEmpty then (s.setState .running).log .info "Resumed"
  else if s.state = .notReady && s.prior = .paused then { s with prior := .running }
  else s

/-- Asks the line that is running to stop, and takes all frames off. -/
def halt (s : Session σ τ) : Session σ τ := { s with stopEvent := true }.clear .stopped

def stop (s : Session σ τ) (atNextLoop : Bool) : Session σ τ :=
  if s.stack.isEmpty then s
  else if atNextLoop then
    (s.markTop fun f => { f with stopAtLoop := true }).log .info "Stopping at the next loop"
  else s.halt.log .info "Stopped"

/-- Stops, and lets nothing be started any more. -/
def shutdown (s : Session σ τ) : Session σ τ :=
  { s.stop false with closed := true, hasRunner := false }

end Session

/-- Did a call start a macro? -/
def started : Except Fault Bool → Bool
  | .ok b => b
  | .error _ => false

/-- Carries a control call out; says whether it started a macro. -/
def Control.perform {σ τ : Type} (b : Bridge τ) (s : Session σ τ) : Control → Bool × Session σ τ
  | run node count => (started (s.run b node count).1, (s.run b node count).2)
  | runByName name count =>
    (started (s.runByName b (.text name) count).1, (s.runByName b (.text name) count).2)
  | pause atNextLoop => (false, s.pause atNextLoop)
  | resume => (false, s.resume)
  | stop atNextLoop => (false, s.stop atNextLoop)

/-- A control call comes in, is carried out, and returns. -/
def Control.apply {σ τ : Type} (b : Bridge τ) (c : Control) (s : Session σ τ) :
    Session σ τ :=
  let (started, s) := c.perform b (s.record (.calling c))
  s.record (.called c started)

end Macros
