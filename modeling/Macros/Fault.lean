import Macros.Grammar.Registry
import Macros.Settings

/-!
What can go wrong while macros run. A fault has a message, and a report that also names its kind.
-/

namespace Macros

/-- Why a name does not lead to a macro. -/
inductive LookupError
  | missing (name : Value)
  | ambiguous (count : Nat) (name : Value)

def LookupError.message : LookupError → String
  | missing v => "No macro named " ++ v.quoted
  | ambiguous k v => toString k ++ " macros are named " ++ v.quoted

inductive Fault
  /-- There is no session with the game client. -/
  | unavailable (message : String)
  /-- The client refuses what a line asks for. -/
  | failure (kind : FailureKind) (message : String)
  | lookup (e : LookupError)
  | option (e : OptionError)
  | write (e : WriteError)
  /-- The client broke down. -/
  | broken (message : String)
  /-- A value does not fit where the line uses it. -/
  | misfit (m : Misfit)
  /-- A wait would never end. -/
  | endless

namespace Fault

/-- A failure says its kind when it has no message of its own. -/
def failed (kind : FailureKind) (message : String) : Fault :=
  .failure kind (if message.isEmpty then kind.text else message)

def message : Fault → String
  | unavailable m => m
  | failure _ m => m
  | lookup e => e.message
  | option e => e.message
  | write (.unknownModifier n) => Text.quoted n
  | write (.render m) => m.message
  | broken m => m
  | misfit m => m.message
  | endless => "wait without end"

def kindName : Fault → String
  | unavailable _ => "EnvironmentUnavailable"
  | failure _ _ => "MacroFailure"
  | lookup _ => "MacroLookupError"
  | option e => e.kindName
  | write (.unknownModifier _) => "KeyError"
  | write (.render m) => m.kindName
  | broken _ => "RuntimeError"
  | misfit m => m.kindName
  | endless => "TimeoutError"

/-- The fault as an unexpected one is logged. -/
def report (f : Fault) : String := f.kindName ++ "(" ++ Text.quoted f.message ++ ")"

end Fault

end Macros
