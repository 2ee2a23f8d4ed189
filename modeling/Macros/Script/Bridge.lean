import Macros.Script.HostLibrary
import Macros.Script.Run
import Macros.Text.Blank

/-! Starting scripts: an interpreter with the libraries that its scripts can use. -/

namespace Macros

structure Bridge (τ : Type) where
  libraries : List HostLibrary
  interpreter : Interpreter τ

namespace Bridge

variable {τ : Type}

def request (b : Bridge τ) (name source : Value) (requirePaths : List String) : LoadRequest :=
  ⟨source, name, b.libraries.map (·.name), requirePaths⟩

/-- Loads a script; it stands before its first line. -/
def start (b : Bridge τ) (r : LoadRequest) : Except String (ScriptRun τ) :=
  match b.interpreter.load r with
  | .ok script => .ok (.create r.name.plain script)
  | .error why => .error (why.text r.name.plain)

/-- What is logged when a path for modules has been added. -/
def pathAddedMessage (path : String) : String := "Added Lua require path: " ++ Text.trim path

end Bridge

end Macros
