import Macros.Scheduler.Client

/-!
Advancing a run. One tick runs one instruction of the innermost macro, or one step of its script
with the line that it yields. What a line comes to counts only for a frame that is still there
when the line has ended.
-/

namespace Macros

namespace Session

variable {σ τ : Type}

/-- A mark at a loop line: stop everything, or pause. -/
def loopFlags (s : Session σ τ) (id : Nat) : Session σ τ :=
  match s.frame? id with
  | none => s
  | some f =>
    if f.stopAtLoop then (s.log .info ((s.nameOf f).plain ++ ": stopped at loop")).halt
    else if f.pauseAtLoop then
      let s := s.modify id fun f => { f with pauseAtLoop := false }
      let s := if s.state = .running then s.setState .paused else s
      s.log .info ((s.nameOf f).plain ++ ": paused at loop")
    else s

/-- The counters without those of a line. -/
def dropCounter (counters : List (Nat × Int)) (index : Nat) : List (Nat × Int) :=
  counters.filter (·.1 != index)

def setCounter (counters : List (Nat × Int)) (index : Nat) (v : Int) : List (Nat × Int) :=
  (index, v) :: dropCounter counters index

/-- How often a loop line still goes back, before it is passed now. -/
def remaining (w : NativeWork) (index : Nat) (count : Int) : Int :=
  (w.counters.lookup index).getD count

/-- Does the loop line go back to the start? Without a count it always does. -/
def reenters (w : NativeWork) (index : Nat) (count : Option Int) : Bool :=
  match count with
  | none => true
  | some n => decide (0 < remaining w index n)

/-- The counters after a loop line has been passed. -/
def countDown (w : NativeWork) (index : Nat) : Option Int → List (Nat × Int)
  | none => w.counters
  | some n =>
    if 0 < remaining w index n then setCounter w.counters index (remaining w index n - 1)
    else dropCounter w.counters index

/-- The macro after its loop line has been passed. -/
def passLoop (w : NativeWork) (index : Nat) (count : Option Int) : NativeWork :=
  if reenters w index count then
    ⟨w.instructions, 0, countDown w index count, w.loopsDone + 1⟩
  else { w with counters := countDown w index count }

/-- The count as it is shown. -/
def shownCount : Option Int → String
  | none => "∞"
  | some n => toString n

/-- Reports that a macro starts again, also in the log if the settings ask for that. -/
def reportLoop (s : Session σ τ) (name : Value) (done : Nat) (count : Option Int) :
    Except Fault Unit × Session σ τ :=
  let s := s.record (.loop name done count)
  match s.settings.loopEcho with
  | .error e => (.error (.option e), s)
  | .ok false => (.ok (), s.emitStatus)
  | .ok true =>
    let shown := name.plain ++ ": loop " ++ toString done ++ "/" ++ shownCount count
    (.ok (), (s.log .info shown).emitStatus)

/-- A loop line of a native macro has been completed. -/
def loopBoundary (s : Session σ τ) (id : Nat) (index : Nat) (count : Option Int) :
    Except Fault Unit × Session σ τ :=
  match s.frame? id with
  | none => (.ok (), s)
  | some f =>
    if f.stopAtLoop then (.ok (), s.loopFlags id)
    else
      match f.work with
      | .script _ => (.ok (), s.loopFlags id)
      | .native w =>
        let s := s.modifyNative id fun w => passLoop w index count
        if reenters w index count then
          match s.reportLoop (s.nameOf f) (w.loopsDone + 1) count with
          | (.error e, s) => (.error e, s)
          | (.ok (), s) => (.ok (), s.loopFlags id)
        else (.ok (), s.loopFlags id)

/-- The count of a loop line. -/
def loopCount (i : Instruction) : Option Int := i.args.toInt?

/-- What a line came to; none if the client was unavailable. -/
abbrev LineResult := Option Outcome

/-- Where a line stands, for the log. -/
def place (name : Value) (i : Instruction) : String :=
  name.plain ++ " line " ++ toString (i.line + 1)

/-- Runs an instruction of a frame. Faults that nobody expects become a failure of the line. -/
def perform (c : Client σ τ) (b : Bridge τ) (s : Session σ τ) (f : Frame τ)
    (i : Instruction) : Except Fault LineResult × Session σ τ :=
  let s := s.record (.handed f.id i)
  match (Execution.execute s.settings i).run.run (answer c b) s with
  | (.ok o, s) => (.ok (some o), s.record (.settled f.id i o))
  | (.error (.unavailable m), s) =>
    (.ok none, s.log .warning ("Environment unavailable: " ++ m))
  | (.error .endless, s) => (.error .endless, s)
  | (.error e, s) =>
    let s := s.log .error (place (s.nameOf f) i ++ ": " ++ e.report)
    let o := Outcome.failed .unsupported e.report
    (.ok (some o), s.record (.settled f.id i o))

/-- Applies the settings to an outcome; says whether the frame is still there afterwards. -/
def settle (s : Session σ τ) (id : Nat) (i : Instruction) (o : Outcome) :
    Except Fault Bool × Session σ τ :=
  match s.frame? id with
  | none => (.ok false, s)
  | some f =>
    if o.ok then (.ok true, s)
    else
      let reason := if o.reason.isEmpty then o.status.label else o.reason
      let message := place (s.nameOf f) i ++ ": " ++ reason
      match s.settings.isStopWorthy o with
      | .error e => (.error (.option e), s)
      | .ok true => (.ok false, (s.log .error message).pop f .failed)
      | .ok false => (.ok true, s.log .warning message)

/-- Is this a loop line that went through? -/
def completesLoop (i : Instruction) (o : Outcome) : Bool :=
  i.command == "loop" && o.status == .completed

/-- Takes a native macro off once its last line is done and nothing runs above it. -/
def popIfDone (s : Session σ τ) (id : Nat) : Session σ τ :=
  match s.top? with
  | none => s
  | some f =>
    if f.id ≠ id then s
    else
      match f.work with
      | .native w => if w.instructions.length ≤ w.cursor then s.pop f .completed else s
      | .script _ => s

/-- What follows a line of a native macro. -/
def afterNative (s : Session σ τ) (id : Nat) (index : Nat) (i : Instruction) :
    LineResult → Except Fault Bool × Session σ τ
  | none =>
    if s.owns id then
      (.ok false,
        ((s.modifyNative id fun w => { w with cursor := index }).enterNotReady).emitStatus)
    else (.ok false, s)
  | some o =>
    match s.settle id i o with
    | (.error e, s) => (.error e, s)
    | (.ok false, s) => (.ok true, s)
    | (.ok true, s) =>
      if completesLoop i o then
        match s.loopBoundary id index (loopCount i) with
        | (.error e, s) => (.error e, s)
        | (.ok (), s) => (.ok true, s.popIfDone id)
      else (.ok true, s.popIfDone id)

def advanceNative (c : Client σ τ) (b : Bridge τ) (s : Session σ τ) (f : Frame τ)
    (w : NativeWork) : Except Fault Bool × Session σ τ :=
  match w.instructions[w.cursor]? with
  | none => (.ok true, s.pop f .completed)
  | some i =>
    let s := (s.modifyNative f.id fun w => { w with cursor := w.cursor + 1 }).emitStatus
    match s.perform c b f i with
    | (.error e, s) => (.error e, s)
    | (.ok result, s) => s.afterNative f.id w.cursor i result

/-- The frame ends, if it is still there. -/
def popIfOwned (s : Session σ τ) (id : Nat) (result : FrameResult) : Session σ τ :=
  match s.frame? id with
  | some f => s.pop f result
  | none => s

/-- What follows a line that a script yielded. -/
def afterScript (s : Session σ τ) (id : Nat) (line : String) (i : Instruction) :
    LineResult → Except Fault Bool × Session σ τ
  | none =>
    if s.owns id then
      (.ok false,
        (s.modifyScript id fun w => { w with pendingLine := some line }).enterNotReady)
    else (.ok false, s)
  | some o =>
    let s := s.modifyScript id fun w => { w with pendingResult := .flag o.ok }
    match s.settle id i o with
    | (.error e, s) => (.error e, s)
    | (.ok false, s) => (.ok true, s)
    | (.ok true, s) => (.ok true, if completesLoop i o then s.loopFlags id else s)

/-- Runs a line that a script yielded; `number` counts its lines from zero. -/
def scriptLine (c : Client σ τ) (b : Bridge τ) (s : Session σ τ) (f : Frame τ)
    (line : String) (number : Int) : Except Fault Bool × Session σ τ :=
  let s := s.emitStatus
  match Line.read s.registry line number with
  | .error e =>
    let s := s.log .error ((s.nameOf f).plain ++ ": " ++ e.message)
    (.ok true, s.modifyScript f.id fun w => { w with pendingResult := .flag false })
  | .ok none => (.ok true, s.modifyScript f.id fun w => { w with pendingResult := .flag true })
  | .ok (some i) =>
    match s.perform c b f i with
    | (.error e, s) => (.error e, s)
    | (.ok result, s) => s.afterScript f.id line i result

/-- The host calls of a step of a script. -/
def hostCalls (c : Client σ τ) : Nat → Session σ τ → Session σ τ
  | 0, s => s
  | n + 1, s => hostCalls c n (c.hostCall s)

/-- How a step of a script ended: an error, the end, or a line. -/
def scriptStep (c : Client σ τ) (b : Bridge τ) (s : Session σ τ) (f : Frame τ)
    (w : ScriptWork τ) : Except String (Option String) × Session σ τ :=
  match w.run.begin b.interpreter w.pendingResult with
  | (run, .ended) => (.ok none, s.modifyScript f.id fun w => { w with run := run })
  | (run, .failed m) => (.error m, s.modifyScript f.id fun w => { w with run := run })
  | (run, .under a) =>
    let s := s.record (.sent f.id (if w.run.started then w.pendingResult else .null))
    let s := s.modifyScript f.id fun w => { w with run := run }
    let s := hostCalls c a.hostCalls s
    let s := s.modifyScript f.id fun w => { w with run := (w.run.finish a.signal).1 }
    ((run.finish a.signal).2, s)

def advanceScript (c : Client σ τ) (b : Bridge τ) (s : Session σ τ) (f : Frame τ)
    (w : ScriptWork τ) : Except Fault Bool × Session σ τ :=
  match w.pendingLine with
  | some line =>
    let s := s.modifyScript f.id fun w => { w with pendingLine := none }
    s.scriptLine c b f line (w.steps - 1)
  | none =>
    match s.scriptStep c b f w with
    | (.error m, s) => (.ok true, (s.log .error ("Script error: " ++ m)).popIfOwned f.id .failed)
    | (.ok none, s) => (.ok true, s.popIfOwned f.id .completed)
    | (.ok (some line), s) =>
      let s := s.modifyScript f.id fun w => { w with steps := w.steps + 1 }
      s.scriptLine c b f line w.steps

/-- The first advance of a new run forgets an earlier stop. -/
def begin (s : Session σ τ) : Session σ τ :=
  if s.freshRun then { s with freshRun := false, stopEvent := false } else s

def advanceTop (c : Client σ τ) (b : Bridge τ) (s : Session σ τ) :
    Except Fault Bool × Session σ τ :=
  match s.top? with
  | none => (.ok false, s.setState .idle)
  | some f =>
    match f.work with
    | .native w => s.advanceNative c b f w
    | .script w => s.advanceScript c b f w

/-- Advances the innermost frame. -/
def advance (c : Client σ τ) (b : Bridge τ) (s : Session σ τ) :
    Except Fault Bool × Session σ τ :=
  s.begin.advanceTop c b

/-- Goes back to the state before an outage, if the client is ready again. -/
def recover (c : Client σ τ) (s : Session σ τ) : Session σ τ :=
  if s.state = .notReady then
    let (ready, s) := c.ready s
    if ready then s.leaveNotReady else s
  else s

/-- Advances a run that is running; says whether a frame advanced. -/
def tick (c : Client σ τ) (b : Bridge τ) (s : Session σ τ) :
    Except Fault Bool × Session σ τ :=
  let s := s.recover c
  if s.state ≠ .running then (.ok false, s)
  else
    let (ready, s) := c.ready s
    if ready then s.advance c b else (.ok false, s.enterNotReady)

/-- Advances a paused run once, and leaves it paused. -/
def step (c : Client σ τ) (b : Bridge τ) (s : Session σ τ) :
    Except Fault Bool × Session σ τ :=
  if s.state ≠ .paused || s.stack.isEmpty then (.ok false, s)
  else
    let (ready, s) := c.ready s
    if !ready then (.ok false, s.enterNotReady)
    else
      match s.advance c b with
      | (.error e, s) => (.error e, s)
      | (.ok advanced, s) =>
        (.ok advanced,
          if s.state = .running && !s.stack.isEmpty then s.setState .paused else s)

end Session

end Macros
