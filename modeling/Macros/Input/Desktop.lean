import Macros.Input.Key
import Macros.Number.Binary64

/-!
Keyboard input on the desktop. A call sends events to the focused window; keys that stay pressed
are remembered, each as often as it was pressed to be held, so that they can be released later.
-/

namespace Macros

inductive KeyEvent
  | press (k : Key)
  | release (k : Key)
  | pause (seconds : Binary64)
deriving DecidableEq

structure Desktop where
  /-- The keys held, the one pressed last at the end. -/
  held : List Key
deriving DecidableEq

namespace Desktop

def idle : Desktop := ⟨[]⟩

/-- How long a combination is down. -/
def holdTime : Binary64 := .ofDecimal false 3 (-2)

/-- Presses the keys in order and releases them in reverse. -/
def pressKeys (combo : String) : Except KeyError (List KeyEvent) :=
  (Key.parseCombo combo).map fun keys =>
    keys.map .press ++ .pause holdTime :: keys.reverse.map .release

def holdKeys (d : Desktop) (combo : String) : Except KeyError (Desktop × List KeyEvent) :=
  (Key.parseCombo combo).map fun keys => (⟨d.held ++ keys⟩, keys.map .press)

/-- Releases the keys in reverse, each once. -/
def releaseKeys (d : Desktop) (combo : String) : Except KeyError (Desktop × List KeyEvent) :=
  (Key.parseCombo combo).map fun keys =>
    (⟨keys.reverse.foldl (fun held k => held.erase k) d.held⟩, keys.reverse.map .release)

/-- Releases what is held, the last first. -/
def releaseAll (d : Desktop) : Desktop × List KeyEvent :=
  (⟨[]⟩, d.held.reverse.map .release)

end Desktop

end Macros
