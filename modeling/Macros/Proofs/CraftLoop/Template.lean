import Macros.Proofs.Grammar.Recounted
import Macros.Proofs.Grammar.Successive

/-!
The template that is used when the settings have none. The macro and the count are put in their places, whatever the
macro has in it, and the macro is read as before, with one loop behind it.
-/

namespace Macros.CraftLoop

/-! Replacing. -/

/-- The count as the template shows it. -/
def shownCount : Option Int → String
  | some n => if 0 ≤ n then toString n else ""
  | none => ""

/-- A macro with both keys in it, and with a carriage return at its end, which is taken with the line feed of the
template. -/
def keyed : String := "/ac Groundwork\n\x0c/echo \x7b\x7bmacro\x7d\x7d \x7b\x7bcount\x7d\x7d\r"

end Macros.CraftLoop
