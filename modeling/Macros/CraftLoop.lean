import Macros.Line

/-!
Two changes to a macro's text before it is read: wrapping it into the craft-loop template, and
setting the count of its last loop.
-/

namespace Macros.CraftLoop

def macroKey : String := "\x7b\x7bmacro\x7d\x7d"

def countKey : String := "\x7b\x7bcount\x7d\x7d"

/-- The template that is used when the settings have none. -/
def defaultTemplate : String := macroKey ++ "\n/loop " ++ countKey

/-- The template has no place for the macro. -/
inductive TemplateError
  | macroKeyMissing
deriving DecidableEq

def TemplateError.message : TemplateError → String
  | macroKeyMissing => "Craft loop template must contain " ++ Text.quoted macroKey

/-- What follows `key` in a text that begins with it. -/
def afterKey? : (key : List Char) → List Char → Option (List Char)
  | [], s => some s
  | k :: ks, c :: s => if k = c then afterKey? ks s else none
  | _ :: _, [] => none

/-- Every occurrence of `key` replaced, from left to right. `skip` counts the characters of an
occurrence that are still to be passed over. -/
def replaceFrom (key new : List Char) (skip : Nat) : List Char → List Char
  | [] => []
  | c :: s =>
    match skip with
    | n + 1 => replaceFrom key new n s
    | 0 =>
      match afterKey? key (c :: s) with
      | some _ => new ++ replaceFrom key new (key.length - 1) s
      | none => c :: replaceFrom key new 0 s

def replace (key new s : String) : String :=
  String.ofList (replaceFrom key.toList new.toList 0 s.toList)

/-- Does `key` occur in a text? -/
def occurs (key : List Char) : List Char → Bool
  | [] => (afterKey? key []).isSome
  | c :: s => (afterKey? key (c :: s)).isSome || occurs key s

/-- The template with the macro and the count in their places. A count that is missing or
negative leaves its place empty. -/
def apply (text : String) (count : Option Int) (template : String) :
    Except TemplateError String :=
  if !occurs macroKey.toList template.toList then .error .macroKeyMissing
  else
    let shown := match count with
      | some n => if 0 ≤ n then toString n else ""
      | none => ""
    .ok (replace macroKey text (replace countKey shown template))

/-- The template with the contents of a macro, which have to be a text, in their place. -/
def wrap (contents : Value) (count : Int) (template : String) :
    Except Misfit (Except TemplateError String) :=
  match contents, apply "" (some count) template with
  | .text s, _ => .ok (apply s (some count) template)
  | _, .error e => .ok (.error e)
  | .null, .ok _ => .error (.notText Value.null.plain)
  | v, .ok _ => .error (.notText v.kindName)

/-- The line with its loop set to `count`, if it is a loop. -/
def setCount? (r : Registry) (count : Int) (line : String) (num : Int) :
    Option (Except WriteError String) :=
  match Line.read r line num with
  | .ok (some i) =>
    if i.command = "loop" then
      some (Instruction.write { i with rawArgs := toString count, args := .int count } r)
    else none
  | _ => none

/-- The lines with their last loop set to `count`; none if there is no loop. -/
def setLast? (r : Registry) (count : Int) (num : Int) :
    List String → Option (Except WriteError (List String))
  | [] => none
  | l :: ls =>
    match setLast? r count (num + 1) ls with
    | some done => some (done.map (l :: ·))
    | none => (setCount? r count l num).map fun done => done.map (· :: ls)

/-- Sets the count of the last loop, or adds a loop at the end. -/
def overrideLast (r : Registry) (text : String) (count : Int) : Except WriteError String :=
  let ls := Text.lines text
  match setLast? r count 0 ls with
  | some done => done.map "\n".intercalate
  | none => .ok ("\n".intercalate (ls ++ ["/loop " ++ toString count]))

end Macros.CraftLoop
