import Macros.Execution.Wait

/-!
Running one instruction. The condition comes first, then the command, then the wait; a failure of
the command becomes an outcome, any other fault ends the run of the line.
-/

namespace Macros.Execution

/-- The settings cannot be used. -/
def usable {α : Type} (x : Except OptionError α) : Act α := Act.ofExcept (x.mapError .option)

def fail {α : Type} (kind : FailureKind) (message : String) : Act α :=
  throw (.failed kind message)

/-- How long the line may wait for a result. -/
def maxWaitOr (i : Instruction) (fallback : Binary64) : Value :=
  (i.modifier? "maxwait").getD (.number fallback)

/-- Reports what a line did, if it asks for that. -/
def echo (i : Instruction) (message : String) : Act Unit := do
  if i.has "echo" then Act.log .info message

def conditionName : Value → Except Misfit String
  | .text s => .ok s
  | v => .error (v.lacks "startswith")

/-- The names in a list of conditions. -/
def conditionNames (v : Value) : Except Misfit (List String) :=
  match v.parts? with
  | some xs => xs.mapM conditionName
  | none => .error .wrongKind

def isNegated (name : String) : Bool := name.toList.head? == some '!'

/-- Does the current condition match the names? One that is excluded never does. -/
def matchesCondition (names : List String) (current : String) : Bool :=
  let excluded := (names.filter isNegated).map fun n => String.ofList (n.toList.drop 1)
  let wanted := names.filter (!isNegated ·)
  !excluded.contains current && (wanted.isEmpty || wanted.contains current)

/-- May the line run under the current condition? -/
def conditionMet (i : Instruction) : Act Bool := do
  match i.modifier? "condition" with
  | none => return true
  | some v =>
    if !v.truthy then return true
    let current ← Act.condition
    let names ← Act.fit (conditionNames v)
    return matchesCondition names (Text.lower current)

/-! Commands. -/

/-- How the attempts at an action end. -/
inductive Attempts
  | confirmed
  | stopped
  | silent

/-- Tries an action until it is confirmed, `left` times after attempt number `done`. -/
def attempt (name : Value) (unconfirmed : Bool) (budget : Value) (total : Nat) :
    (left : Nat) → (done : Nat) → Act Attempts
  | 0, _ => return .silent
  | left + 1, done => do
    let _ ← Act.ask (.action name)
    if unconfirmed then return .confirmed
    if ← Wait.poll (Act.ask (.actionConfirmed name)) budget then return .confirmed
    if ← Act.stopped then return .stopped
    if left ≠ 0 then
      Act.log .warning ("No response to " ++ name.quoted ++ ", retrying ("
        ++ toString (done + 1) ++ "/" ++ toString (total - 1) ++ ")")
    attempt name unconfirmed budget total left (done + 1)

def runAction (settings : Settings) (i : Instruction) : Act Unit := do
  let budget := maxWaitOr i (← usable settings.defaultWaitBudget)
  let total := (← usable settings.maxTimeoutRetries) + 1
  match ← attempt i.args (i.has "unsafe") budget total total 0 with
  | .stopped => return
  | .confirmed => echo i ("Action: " ++ i.args.plain)
  | .silent =>
    fail .actionTimeout ("Did not receive a timely response to " ++ i.args.quoted)

def runWait (i : Instruction) : Act Unit := do
  let seconds ← Wait.pick i.args
  let shown ← Act.fit seconds.hundredths
  echo i ("Waiting " ++ shown ++ "s")
  Wait.sleep seconds

def runEcho (i : Instruction) : Act Unit := Act.say .info i.args

/-- Starts another macro; a name that leads to none is a failure. -/
def runMacro (i : Instruction) : Act Unit := do
  tryCatch (Act.start i.args) fun
    | .lookup e => fail .macroNotFound e.message
    | f => throw f
  echo i ("Running macro " ++ i.args.quoted)

def runTarget (i : Instruction) : Act Unit := do
  let index := (i.modifier? "index").getD (.int 1)
  if !(← Act.ask (.target i.args index)) then
    fail .targetNotFound ("Could not find target: " ++ i.args.plain)
  echo i ("Targeted " ++ i.args.plain)

def runItem (i : Instruction) : Act Unit := do
  if !(← Act.ask (.hasItem i.args)) then
    fail .itemNotFound ("You do not have any " ++ i.args.plain)
  if !(← Act.ask (.canUseItem i.args)) then
    fail .itemNotUsable (i.args.plain ++ " cannot be used right now")
  let _ ← Act.ask (.useItem i.args)
  echo i ("Used " ++ i.args.plain)

/-- Polls for something that the line needs; whether it is there or a stop came first. -/
inductive Needed
  | present
  | stopped

/-- Polls, and fails if the time runs out without a stop. -/
def need (question : Act Bool) (limit : Value) (kind : FailureKind) (message : String) :
    Act Needed := do
  if ← Wait.poll question limit then return .present
  if ← Act.stopped then return .stopped
  fail kind message

def runWaitAddon (i : Instruction) : Act Unit := do
  let limit := maxWaitOr i Limits.defaultMaxWait
  match ← need (Act.ask (.addonExists i.args)) limit .addonNotFound
      ("Could not find addon: " ++ i.args.plain) with
  | .stopped => return
  | .present =>
    match ← need (Act.ask (.addonVisible i.args)) limit .addonNotVisible
        ("Addon not visible: " ++ i.args.plain) with
    | .stopped => return
    | .present => echo i ("Addon ready: " ++ i.args.plain)

def runClick (i : Instruction) : Act Unit := do
  if !(← Act.ask (.click i.args)) then
    fail .addonNotFound ("Nothing to click for " ++ i.args.quoted)
  echo i ("Clicked " ++ i.args.plain)

def runRequire (i : Instruction) : Act Unit := do
  let _ ← need (Act.ask (.hasStatus i.args)) (maxWaitOr i Limits.defaultMaxWait) .conditionNotMet
    ("Required status missing: " ++ i.args.plain)

def runSend (i : Instruction) : Act Unit := do
  let _ ← Act.ask (.send i.args)
  echo i ("Sent " ++ i.args.plain)

def runHold (i : Instruction) : Act Unit := discard (Act.ask (.hold i.args))

def runRelease (i : Instruction) : Act Unit := discard (Act.ask (.release i.args))

/-- What a command does; none for a command that is not known here. -/
def handler? (settings : Settings) (i : Instruction) : Option (Act Unit) :=
  match i.command with
  | "action" => some (runAction settings i)
  | "wait" => some (runWait i)
  | "echo" => some (runEcho i)
  | "runmacro" => some (runMacro i)
  | "loop" => some (pure ())
  | "target" => some (runTarget i)
  | "item" => some (runItem i)
  | "waitaddon" => some (runWaitAddon i)
  | "click" => some (runClick i)
  | "require" => some (runRequire i)
  | "send" => some (runSend i)
  | "hold" => some (runHold i)
  | "release" => some (runRelease i)
  | _ => none

/-- The wait that a line ends with. -/
def trailingWait (i : Instruction) : Act Unit := do
  match i.modifier? "wait" with
  | none | some .null => return
  | some span => Wait.sleep (← Wait.pick span)

/-- The outcome of a command's failure. -/
def outcomeOf (kind : FailureKind) (message : String) : Outcome :=
  if kind = .actionTimeout then .timedOut message else .failed kind message

/-- What a fault of a command comes to. -/
def caught : Fault → Act (Option Outcome)
  | .failure kind message => return some (outcomeOf kind message)
  | f => throw f

/-- A command with its failures turned into outcomes; none if it went through. -/
def guarded (command : Act Unit) : Act (Option Outcome) :=
  tryCatch (command >>= fun _ => pure none) caught

/-- What follows a command: the wait, if it went through. -/
def conclude (i : Instruction) : Option Outcome → Act Outcome
  | some o => return o
  | none => do
    trailingWait i
    return .completed

/-- Runs an instruction. -/
def execute (settings : Settings) (i : Instruction) : Act Outcome := do
  match handler? settings i with
  | none => return .failed .unsupported ("No handler for /" ++ i.command)
  | some command =>
    if !(← conditionMet i) then
      echo i ("Skipped (condition): " ++ i.text)
      return .skipped "condition not met"
    conclude i (← guarded command)

/-- The fault of a line that starts a macro where none can be started. -/
def noRunner : Fault := .failed .unsupported "/runmacro needs a scheduler"

end Macros.Execution
