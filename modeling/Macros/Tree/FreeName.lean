import Macros.Text.Blank
import Macros.Number.Numeral
import Macros.Tree.Basic

/-!
Names that are free in a tree. A name that is taken gives way to `name (1)`, and a name that ends
in a number in parentheses to the next number.
-/

namespace Macros.FreeName

/-- The stem and the digits of a name of the form `stem (number)`. -/
def suffix? (name : List Char) : Option (List Char × List Nat) :=
  match name.reverse with
  | ')' :: r =>
    match r.takeWhile Text.isDecimal, r.dropWhile Text.isDecimal with
    | d :: ds, '(' :: ' ' :: stem =>
      some (stem.reverse, (d :: ds).reverse.filterMap Text.digitValue?)
    | _, _ => none
  | _ => none

def numbered (stem number : String) : String := stem ++ " (" ++ number ++ ")"

/-- The name to try after `name`; there is none if the numbers get too long. -/
def advance (name : String) : Except Numeral.IntegerError String :=
  match suffix? name.toList with
  | none => .ok (numbered name "1")
  | some (stem, digits) =>
    if Numeral.maxDigits < digits.length then .error (.tooManyDigits digits.length)
    else (Numeral.writeNat (Numeral.ofDigits digits + 1)).map (numbered (String.ofList stem))

/-- The first name from `name` on that is not taken. A name passed over does not come back, so it
may be struck off. -/
def firstFree (taken : List String) (name : String) : Except Numeral.IntegerError String :=
  if _h : name ∈ taken then
    match advance name with
    | .error e => .error e
    | .ok next => firstFree (taken.erase name) next
  else .ok name
termination_by taken.length
decreasing_by
  have := List.length_pos_of_mem _h
  rw [List.length_erase_of_mem _h]
  omega

end Macros.FreeName

namespace Macros

/-- Why no name can be given. -/
inductive NameError
  /-- The number of a name in use is too long to count on. -/
  | number (e : Numeral.IntegerError)
  /-- A name in use cannot be compared with others, or the new name is no text. -/
  | misfit (m : Misfit)
deriving DecidableEq

namespace FreeName

/-- Names that can be compared with each other. -/
def comparable (names : List Value) : Except NameError (List Value) :=
  if names.all Value.isMember then .ok names else .error (.misfit .wrongKind)

/-- The names that are texts. -/
def texts (names : List Value) : List String :=
  names.filterMap fun v => match v with
    | .text s => some s
    | _ => none

end FreeName

/-- The name, or the first variant of it that no node but `except` has. -/
def Tree.uniqueName (t : Tree) (name : Value) (except : Option NodeId) :
    Except NameError String :=
  match FreeName.comparable ((t.flatten.filter (some · != except)).map t.name), name with
  | .error e, _ => .error e
  | .ok taken, .text s =>
    match FreeName.firstFree (FreeName.texts taken) (Text.trim s) with
    | .error e => .error (.number e)
    | .ok free => .ok (Text.trim free)
  | .ok _, v => .error (.misfit (v.lacks "strip"))

end Macros
