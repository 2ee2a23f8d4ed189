import Macros.Text.Case
import Macros.Tree.Edit

/-!
A tree from a directory. Sub-directories become folders and files with a known suffix macros;
within a directory the sub-directories come first, and both in the order of their names in small
letters.
-/

namespace Macros

inductive DirEntry
  | dir (name : String) (entries : List DirEntry)
  | file (name text : String)

namespace DirEntry

def name : DirEntry → String
  | dir n _ => n
  | file n _ => n

def isFile : DirEntry → Bool
  | dir _ _ => false
  | file _ _ => true

/-- A file name up to its last point, and the suffix from there on; a point at either end of the
name begins no suffix. -/
def splitSuffix (name : String) : String × String :=
  let r := name.toList.reverse
  let ext := r.takeWhile (· != '.')
  match r.dropWhile (· != '.') with
  | _ :: stem =>
    if ext.isEmpty || stem.isEmpty then (name, "")
    else (String.ofList stem.reverse, String.ofList ('.' :: ext.reverse))
  | [] => (name, "")

def language? (suffix : String) : Option Language :=
  if suffix = ".macro" then some .native else if suffix = ".lua" then some .lua else none

/-- Does `a` come before `b` in its directory, or beside it? -/
def inOrder (a b : DirEntry) : Bool :=
  if a.isFile = b.isFile then !decide (Text.lower b.name < Text.lower a.name) else b.isFile

mutual

/-- Puts every directory in order, at all depths. -/
def arrange : DirEntry → DirEntry
  | dir n es => dir n ((arrangeAll es).mergeSort inOrder)
  | file n s => file n s

def arrangeAll : List DirEntry → List DirEntry
  | [] => []
  | e :: es => arrange e :: arrangeAll es

end

mutual

/-- Loads an entry into the folder `parent`. -/
def load (t : Tree) (parent : NodeId) : DirEntry → Except StructuralError Tree
  | dir n es =>
    match t.newFolder (some parent) (.text n) with
    | .error e => .error e
    | .ok (t, folder) => loadAll t folder es
  | file n s =>
    match language? (splitSuffix n).2 with
    | none => .ok t
    | some l =>
      (t.newLeaf (some parent) (.text (splitSuffix n).1) (.text (Text.unifyBreaks s)) l).map (·.1)

def loadAll (t : Tree) (parent : NodeId) : List DirEntry → Except StructuralError Tree
  | [] => .ok t
  | e :: es =>
    match load t parent e with
    | .error err => .error err
    | .ok t => loadAll t parent es

end

/-- Adds what a path leads to, with the directories on the way. -/
def insertPath (leaf : Option String) : List String → List DirEntry → List DirEntry
  | [], es => es
  | [n], es =>
    match leaf with
    | some s => es.filter (·.name != n) ++ [file n s]
    | none => if es.any (·.name = n) then es else es ++ [dir n []]
  | n :: path, es =>
    match es.find? (·.name = n) with
    | some (dir _ inner) =>
      es.map fun e => if e.name = n then dir n (insertPath leaf path inner) else e
    | _ => es ++ [dir n (insertPath leaf path [])]

end DirEntry

/-- The tree of a directory with the given entries. -/
def Tree.ofDirectory (name : String) (entries : List DirEntry) : Except StructuralError Tree :=
  let sorted := (DirEntry.arrangeAll entries).mergeSort DirEntry.inOrder
  DirEntry.loadAll (Tree.ofName (if name.isEmpty then "/" else name)) 0 sorted

end Macros
