import Macros.Execution.Routine
import Macros.Input.Desktop

/-!
The desktop as a game client. It can only use the keyboard: what asks for the game itself is
refused, and what waits for the game never comes.
-/

namespace Macros

/-- The command that a request belongs to. -/
def Request.commandName : Request → String
  | .action _ | .actionConfirmed _ => "/action"
  | .target _ _ => "/target"
  | .hasItem _ | .canUseItem _ | .useItem _ => "/item"
  | .addonExists _ | .addonVisible _ => "/waitaddon"
  | .click _ => "/click"
  | .send _ => "/send"
  | .hold _ => "/hold"
  | .release _ => "/release"
  | .hasStatus _ => "/require"

namespace Desktop

def needsClient (r : Request) : Fault :=
  .failed .unsupported (r.commandName ++ " needs a game client")

/-- What becomes of a combination, which is a text, or the refusal of one with an unknown key. -/
def typed (d : Desktop) (combo : Value)
    (f : String → Except KeyError (Desktop × List KeyEvent)) :
    Except Fault Bool × Desktop × List KeyEvent :=
  match combo with
  | .text s =>
    match f s with
    | .ok (d, es) => (.ok true, d, es)
    | .error e => (.error (.failed .unsupported e.message), d, [])
  | v => (.error (.misfit (v.lacks "split")), d, [])

/-- The answer to a request, and the events that go to the focused window. -/
def answer (d : Desktop) (r : Request) : Except Fault Bool × Desktop × List KeyEvent :=
  match r with
  | .send combo => d.typed combo fun s => (pressKeys s).map (d, ·)
  | .hold combo => d.typed combo d.holdKeys
  | .release combo => d.typed combo d.releaseKeys
  | .actionConfirmed _ | .hasStatus _ => (.ok false, d, [])
  | r => (.error (needsClient r), d, [])

/-- The condition that the desktop always reports. -/
def condition : String := "normal"

end Desktop

end Macros
