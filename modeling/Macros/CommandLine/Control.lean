import Macros.CommandLine.Command
import Macros.Scheduler.Control

/-!
Carrying out text commands on a run. Every command is answered with a text for the user; a name
that leads to no macro is answered too, and is no fault.
-/

namespace Macros

namespace Session

variable {σ τ : Type}

/-- Starts a macro for the user. -/
def commandRun (b : Bridge τ) (s : Session σ τ) (count : Option Int) (name : String) :
    Except Fault String × Session σ τ :=
  match s.runByName b (.text name) count with
  | (.error (.lookup e), s) => (.ok e.message, s)
  | (.error f, s) => (.error f, s)
  | (.ok false, s) => (.ok ("Could not start macro " ++ Text.quoted name), s)
  | (.ok true, s) =>
    let times := match count with
      | some n => " (" ++ toString n ++ " loops)"
      | none => ""
    (.ok ("Running " ++ Text.quoted name ++ times), s)

def carryOut (b : Bridge τ) (s : Session σ τ) : Command → Except Fault String × Session σ τ
  | .help => (.ok Command.helpText, s)
  | .run count name => s.commandRun b count name
  | .pause atNextLoop =>
    (.ok (if atNextLoop then "Pausing at the next loop" else "Paused"), s.pause atNextLoop)
  | .resume => (.ok "Resumed", s.resume)
  | .stop atNextLoop =>
    (.ok (if atNextLoop then "Stopping at the next loop" else "Stopped"), s.stop atNextLoop)

/-- Reads a text command and carries it out. -/
def command (b : Bridge τ) (s : Session σ τ) (text : String) :
    Except Fault String × Session σ τ :=
  match Command.read text with
  | .ok c => s.carryOut b c
  | .error e => (.ok e.message, s)

end Session

end Macros
