import Macros.Proofs.Grammar.Read
import Macros.Proofs.Text.Lines

/-!
A macro is read line by line. What stands behind some lines is read as it would be alone, with its numbers counted
on from them, so an instruction is found again in the line that it was read from; and empty lines give nothing.
-/

namespace Macros.Line

variable {r : Registry} {num : Int}

end Macros.Line
