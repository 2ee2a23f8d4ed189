/-!
How a value fails to fit where it is used. An instruction or a record can hold values of every
kind; that one does not fit is found out when it is used, and not before.
-/

namespace Macros

inductive Misfit
  /-- There is no such operation on values of this kind. -/
  | wrongKind
  /-- Values of a kind lack the part that is asked for. -/
  | lacking (kind part : String)
  /-- Text was to be replaced by something that is no text. -/
  | notText (kind : String)
  /-- Two parts were expected. -/
  | tooFew (count : Nat)
  | tooMany
  /-- A text where a number is to be written in a format. -/
  | textAsNumber (format : Char)
  | tooLarge
deriving DecidableEq

namespace Misfit

def message : Misfit → String
  | wrongKind => "unsupported value"
  | lacking k p => "'" ++ k ++ "' object has no attribute '" ++ p ++ "'"
  | notText k => "replace() argument 2 must be str, not " ++ k
  | tooFew n => "not enough values to unpack (expected 2, got " ++ toString n ++ ")"
  | tooMany => "too many values to unpack (expected 2)"
  | textAsNumber c =>
    "Unknown format code '" ++ String.ofList [c] ++ "' for object of type 'str'"
  | tooLarge => "int too large to convert to float"

def kindName : Misfit → String
  | wrongKind | notText _ => "TypeError"
  | lacking _ _ => "AttributeError"
  | tooLarge => "OverflowError"
  | tooFew _ | tooMany | textAsNumber _ => "ValueError"

end Misfit

end Macros
