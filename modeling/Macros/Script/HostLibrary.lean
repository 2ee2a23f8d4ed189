import Macros.Table
import Macros.Value

/-!
Libraries of functions that a script can call, and the texts that describe them.
-/

namespace Macros

/-- What is written about a type. -/
inductive TypeNote
  | missing
  | written (s : String)
  | expression (s : String)
  | nothing
deriving DecidableEq

namespace TypeNote

/-- The name of a type expression: of an applied type the part before the bracket; alternatives
stand between bars. -/
def expressionName (s : String) : String :=
  if s.toList.contains '|' then " | ".intercalate (s.splitOn "|")
  else String.ofList (s.toList.takeWhile (· != '['))

def shown : TypeNote → String
  | missing => "any"
  | written s => s
  | expression s => expressionName s
  | nothing => "None"

/-- A result that is nothing is called void. -/
def shownResult : TypeNote → String
  | nothing => "void"
  | written "None" => "void"
  | t => t.shown

end TypeNote

structure Parameter where
  name : String
  note : TypeNote
  default : Option Value

def Parameter.shown (p : Parameter) : String :=
  p.note.shown ++ " " ++ p.name ++
    match p.default with
    | some v => " = " ++ v.quoted
    | none => ""

structure HostFunction where
  name : String
  params : List Parameter
  result : TypeNote

def HostFunction.signature (f : HostFunction) : String :=
  f.result.shownResult ++ " " ++ f.name ++ "(" ++ ", ".intercalate (f.params.map (·.shown)) ++ ")"

/-- A library of functions. An attribute takes the place of whatever else goes by its name: it hides
a method, and `namespace` and `name` rename the library. -/
structure HostLibrary where
  className : String
  methods : List HostFunction
  attributes : Table Value

namespace HostLibrary

/-- The members by which a library is listed; they are not offered to scripts. -/
def reserved : List String := ["functions", "list_all_functions"]

/-- The name that a script uses for the library. -/
def name (l : HostLibrary) : Value :=
  match l.attributes.get? "name" with
  | some v => v
  | none =>
    let ns := (l.attributes.get? "namespace").getD .null
    if ns.truthy then ns else .text l.className

def isOffered (l : HostLibrary) (name : String) : Bool :=
  !(name.toList.head? == some '_') && !reserved.contains name && !l.attributes.has name

/-- The functions offered to scripts, by name; a later method replaces an earlier one. -/
def offered (l : HostLibrary) : List HostFunction :=
  let table : Table HostFunction := Table.putAll [] (l.methods.map fun f => (f.name, f))
  ((table.filter fun e => l.isOffered e.1).map (·.2)).mergeSort fun a b => !decide (b.name < a.name)

/-- What stands in the way of a listing that goes by `member`: an attribute cannot be called, and a
method gives nothing back. -/
def hidden? (l : HostLibrary) (member : String) (nothing : Misfit) : Option Misfit :=
  if l.attributes.has member then some .wrongKind
  else if l.methods.any (·.name = member) then some nothing
  else none

/-- The functions offered, if the library can still list them. -/
def functions (l : HostLibrary) : Except Misfit (List HostFunction) :=
  match l.hidden? "functions" .wrongKind with
  | some m => .error m
  | none => .ok l.offered

/-- The signatures of the functions; none if a method answers in place of the list. -/
def signatures (l : HostLibrary) : Except Misfit (Option (List String)) :=
  if l.attributes.has "list_all_functions" then .error .wrongKind
  else if l.methods.any (·.name = "list_all_functions") then .ok none
  else
    match l.hidden? "functions" (Value.null.lacks "items") with
    | some m => .error m
    | none => .ok (some (l.offered.map (·.signature)))

/-- One more library in a description; a name that is there keeps its place. -/
def describeOne (described : List (Value × Option (List String))) (l : HostLibrary) :
    Except Misfit (List (Value × Option (List String))) :=
  match l.signatures with
  | .error m => .error m
  | .ok signatures =>
    if !l.name.isMember then .error .wrongKind
    else if described.any fun e => e.1.same l.name then
      .ok (described.map fun e => if e.1.same l.name then (e.1, signatures) else e)
    else .ok (described ++ [(l.name, signatures)])

/-- The signatures by library name; of several libraries with one name the last counts. -/
def describe (ls : List HostLibrary) : Except Misfit (List (Value × Option (List String))) :=
  ls.foldlM describeOne []

end HostLibrary

end Macros
