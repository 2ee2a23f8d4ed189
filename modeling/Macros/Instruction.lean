import Macros.Table
import Macros.Value

/-! One line of a macro, ready to run: a command, its argument and its tags. -/

namespace Macros

structure Instruction where
  command : String
  /-- The argument as it is written, without tags. -/
  rawArgs : String
  args : Value
  modifiers : Table Value
  /-- The line that the instruction was read from. -/
  text : String
  line : Int

namespace Instruction

def modifier? (i : Instruction) (name : String) : Option Value := i.modifiers.get? name

def has (i : Instruction) (name : String) : Bool := i.modifiers.has name

/-- The names of the modifiers in alphabetical order, each with its value. -/
def sortedModifiers (i : Instruction) : List (String × Value) :=
  i.modifiers.mergeSort fun a b => !decide (b.1 < a.1)

/-- A modifier without a grammar to write it: a flag is its name alone. -/
def plainModifier (name : String) : Value → String
  | .flag true => "<" ++ name ++ ">"
  | v => "<" ++ name ++ "." ++ v.plain ++ ">"

/-- The line that the parts make, single spaces between them. -/
def assemble (i : Instruction) (modifiers : List String) : String :=
  " ".intercalate
    (("/" ++ i.command) :: (if i.rawArgs.isEmpty then [] else [i.rawArgs]) ++ modifiers)

def plainText (i : Instruction) : String :=
  i.assemble (i.sortedModifiers.map fun (name, v) => plainModifier name v)

end Instruction

end Macros
