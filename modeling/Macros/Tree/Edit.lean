import Macros.Tree.FreeName
import Macros.Text.Quoted

/-!
Changes to the tree. Each is checked before anything is changed, so a refusal leaves the tree as
it was.
-/

namespace Macros

/-- Why a change is refused. -/
inductive StructuralError
  | renameOutside (name : Value)
  | notAChild (name parent : Value)
  | moveRoot
  | noParent (name : Value)
  | moveBelowItself (name : Value)
  | parentOutside (name : Value)
  | hasParent (name : Value)
  | insertBelowItself (name : Value)
  | nameTaken (name : Value)
  | unnamed (e : NameError)
  /-- Only a folder has children. -/
  | notAFolder (name : Value)

def NameError.message : NameError → String
  | number e => e.message
  | misfit m => m.message

def StructuralError.message : StructuralError → String
  | renameOutside n => "Cannot rename " ++ n.quoted ++ ": not in the tree"
  | notAChild n p => n.quoted ++ " is not a child of " ++ p.quoted
  | moveRoot => "The root folder cannot be moved"
  | noParent n => "Could not find parent of node " ++ n.quoted
  | moveBelowItself n => "Cannot move " ++ n.quoted ++ " into itself"
  | parentOutside n => "Parent " ++ n.quoted ++ " is not in the tree"
  | hasParent n => n.quoted ++ " already has a parent"
  | insertBelowItself n => "Cannot insert " ++ n.quoted ++ " below itself"
  | nameTaken n => "A node named " ++ n.quoted ++ " already exists"
  | unnamed e => e.message
  | notAFolder n => n.quoted ++ " is not a folder"

def StructuralError.kindName : StructuralError → String
  | unnamed (.number _) => "ValueError"
  | unnamed (.misfit m) => m.kindName
  | notAFolder _ => "AttributeError"
  | _ => "StructuralError"

namespace Tree

/-- A position from the end when it is negative, cut off at both ends of the list. -/
def position (length : Nat) (index : Int) : Nat :=
  if index < 0 then (length + index).toNat else min index.toNat length

def insertAt (cs : List NodeId) (i : Nat) (n : NodeId) : List NodeId := cs.take i ++ n :: cs.drop i

def rename (t : Tree) (n : NodeId) (name : Value) : Except StructuralError Tree :=
  if !t.contains n then .error (.renameOutside (t.name n))
  else
    match t.uniqueName name (some n), t.node? n with
    | .error e, _ => .error (.unnamed e)
    | .ok name, some node => .ok (t.setNode n (node.setName (.text name)))
    | .ok _, none => .ok t

/-- Are two nodes named alike? A node is always named like itself. -/
def namedAlike (t : Tree) (m n : NodeId) : Bool := m = n || (t.name m).same (t.name n)

/-- Checks that no node is named like a node of the tree or a node before it. -/
def checkNames (t : Tree) (taken : List NodeId) : List NodeId → Except StructuralError Unit
  | [] => .ok ()
  | n :: ns =>
    if !(t.name n).isMember then .error (.unnamed (.misfit .wrongKind))
    else if taken.any (t.namedAlike n) then .error (.nameTaken (t.name n))
    else t.checkNames (n :: taken) ns

/-- May the node be put below `parent`? -/
def checkInsert (t : Tree) (parent n : NodeId) : Except StructuralError Unit :=
  if !t.contains parent then .error (.parentOutside (t.name parent))
  else if t.contains n then .error (.hasParent (t.name n))
  else if (t.walk n).contains parent then .error (.insertBelowItself (t.name n))
  else
    match FreeName.comparable (t.flatten.map t.name) with
    | .error e => .error (.unnamed e)
    | .ok _ => t.checkNames t.flatten (t.walk n)

/-- Puts the node, with all below it, into a folder; at its end without an index. -/
def addChild (t : Tree) (parent n : NodeId) (index : Option Int) : Except StructuralError Tree :=
  match t.checkInsert parent n with
  | .error e => .error e
  | .ok () =>
    let cs := t.children parent
    if t.isFolder parent then
      .ok (t.setChildren parent (match index with
        | none => cs ++ [n]
        | some i => insertAt cs (position cs.length i) n))
    else .error (.notAFolder (t.name parent))

def removeChild (t : Tree) (parent n : NodeId) : Except StructuralError Tree :=
  if (t.children parent).contains n then
    .ok (t.setChildren parent ((t.children parent).filter (· != n)))
  else .error (.notAChild (t.name n) (t.name parent))

/-- Where a node dropped on `target` goes: a folder, and the place in it before `target`. -/
def dropPlace (t : Tree) (target : NodeId) : Except StructuralError (NodeId × Option Nat) :=
  if t.isFolder target then .ok (target, none)
  else
    match t.findParent target with
    | none => .error (.noParent (t.name target))
    | some d => .ok (d, some ((t.children d).idxOf target))

/-- Drops a node on a target: into a folder at its end, or before a macro. -/
def move (t : Tree) (n target : NodeId) : Except StructuralError Tree :=
  if n = t.root then .error .moveRoot
  else
    match t.findParent n with
    | none => .error (.noParent (t.name n))
    | some source =>
      match t.dropPlace target with
      | .error e => .error e
      | .ok (destination, place) =>
        if n = target || (t.isFolder n && (t.walk n).contains destination) then
          .error (.moveBelowItself (t.name n))
        else
          let from' := (t.children source).idxOf n
          (t.removeChild source n).map fun t =>
            let cs := t.children destination
            t.setChildren destination (match place with
              | none => cs ++ [n]
              | some i =>
                insertAt cs (if destination = source && from' < i then i - 1 else i) n)

/-- The name of a new macro that is given none. -/
def untitledLeaf : String := "Untitled macro"

/-- The name of a new folder that is given none. -/
def untitledFolder : String := "Untitled folder"

/-- Puts a node that is not in the store yet at the end of a folder. -/
def addNew (t : Tree) (parent : NodeId) (node : Node) : Except StructuralError (Tree × NodeId) :=
  let (t, n) := t.alloc node
  (t.addChild parent n none).map (·, n)

def newLeaf (t : Tree) (parent : Option NodeId) (name contents : Value) (language : Language) :
    Except StructuralError (Tree × NodeId) :=
  match t.uniqueName name none with
  | .error e => .error (.unnamed e)
  | .ok name => t.addNew (parent.getD t.root) (.leaf (.text name) (.ofContents contents language))

def newFolder (t : Tree) (parent : Option NodeId) (name : Value) :
    Except StructuralError (Tree × NodeId) :=
  match t.uniqueName name none with
  | .error e => .error (.unnamed e)
  | .ok name => t.addNew (parent.getD t.root) (.folder (.text name) [])

end Tree

end Macros
