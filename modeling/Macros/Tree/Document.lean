import Macros.Value

/-!
Macros and folders as plain data, the form in which a tree is stored and shown. Names and contents
are texts as a rule; what is stored may hold values of any kind, which are kept as they are.
-/

namespace Macros

inductive Language
  | native
  | lua
deriving DecidableEq

def Language.label : Language → String
  | native => "native"
  | lua => "lua"

/-- What a macro holds beside its name. -/
structure Body where
  contents : Value
  language : Language
  craftLoop : Bool
  craftLoopCount : Int

namespace Body

def ofContents (contents : Value) (language : Language) : Body := ⟨contents, language, false, 0⟩

end Body

inductive Document
  | leaf (name : Value) (body : Body)
  | folder (name : Value) (children : List Document)

def Document.name : Document → Value
  | leaf n _ => n
  | folder n _ => n

end Macros
