import Macros.Tree.Document

/-!
The tree of macros. Nodes live in a store and are told apart by their place in it, so that two
nodes may look alike, and a folder outside of the tree may list nodes that are in it.
-/

namespace Macros

abbrev NodeId := Nat

inductive Node
  | leaf (name : Value) (body : Body)
  | folder (name : Value) (children : List NodeId)

namespace Node

def name : Node → Value
  | leaf n _ => n
  | folder n _ => n

def children : Node → List NodeId
  | leaf _ _ => []
  | folder _ cs => cs

def isFolder : Node → Bool
  | leaf _ _ => false
  | folder _ _ => true

def setName (name : Value) : Node → Node
  | leaf _ b => leaf name b
  | folder _ cs => folder name cs

end Node

structure Tree where
  nodes : List Node
  root : NodeId

namespace Tree

def node? (t : Tree) (n : NodeId) : Option Node := t.nodes[n]?

def name (t : Tree) (n : NodeId) : Value := ((t.node? n).map Node.name).getD (.text "")

def children (t : Tree) (n : NodeId) : List NodeId := ((t.node? n).map Node.children).getD []

def isFolder (t : Tree) (n : NodeId) : Bool := ((t.node? n).map Node.isFolder).getD false

def body? (t : Tree) (n : NodeId) : Option Body :=
  match t.node? n with
  | some (.leaf _ b) => some b
  | _ => none

/-- A new node, in no folder yet. -/
def alloc (t : Tree) (node : Node) : Tree × NodeId :=
  ({ t with nodes := t.nodes ++ [node] }, t.nodes.length)

def setNode (t : Tree) (n : NodeId) (node : Node) : Tree := { t with nodes := t.nodes.set n node }

/-- Gives a folder other children; the name stays. -/
def setChildren (t : Tree) (n : NodeId) (cs : List NodeId) : Tree :=
  t.setNode n (.folder (t.name n) cs)

section

variable {t : Tree} {m n : NodeId}

theorem node?_setNode (hn : n < t.nodes.length) (node : Node) (m : NodeId) :
    (t.setNode n node).node? m = if m = n then some node else t.node? m := by
  unfold setNode node?
  dsimp only
  rw [List.getElem?_set]
  by_cases h : m = n
  · simp [h, hn]
  · simp [h, Ne.symm h]

theorem children_setChildren (hn : n < t.nodes.length) (cs : List NodeId) (m : NodeId) :
    (t.setChildren n cs).children m = if m = n then cs else t.children m := by
  unfold setChildren children
  rw [node?_setNode hn]
  split <;> rfl

theorem name_setChildren (n : NodeId) (hn : n < t.nodes.length) (cs : List NodeId) (m : NodeId) :
    (t.setChildren n cs).name m = t.name m := by
  unfold setChildren name
  rw [node?_setNode hn]
  split
  · next h => rw [h]; rfl
  · rfl

theorem length_setChildren (n : NodeId) (cs : List NodeId) :
    (t.setChildren n cs).nodes.length = t.nodes.length := List.length_set

theorem node?_alloc (node : Node) (m : NodeId) :
    (t.alloc node).1.node? m = if m = t.nodes.length then some node else t.node? m := by
  unfold alloc node?
  dsimp only
  rcases Nat.lt_trichotomy m t.nodes.length with h | h | h
  · rw [List.getElem?_append_left h, if_neg (Nat.ne_of_lt h)]
  · simp [h]
  · rw [List.getElem?_eq_none (by simp; omega), if_neg (Nat.ne_of_gt h),
      List.getElem?_eq_none (Nat.le_of_lt h)]

theorem children_alloc (node : Node) (m : NodeId) :
    (t.alloc node).1.children m = if m = t.nodes.length then node.children else t.children m := by
  unfold children
  rw [node?_alloc]
  split <;> rfl

theorem name_alloc (node : Node) (hm : m < t.nodes.length) :
    (t.alloc node).1.name m = t.name m := by
  unfold name
  rw [node?_alloc, if_neg (Nat.ne_of_lt hm)]

end

/-- The nodes at and below `n` in pre-order, down to `depth` levels below it. -/
def walkTo (t : Tree) : (depth : Nat) → NodeId → List NodeId
  | 0, n => [n]
  | d + 1, n => n :: (t.children n).flatMap (t.walkTo d)

/-- The nodes at and below `n` in pre-order; no path is longer than the store. -/
def walk (t : Tree) (n : NodeId) : List NodeId := t.walkTo t.nodes.length n

/-- All nodes of the tree, the root first. -/
def flatten (t : Tree) : List NodeId := t.walk t.root

/-- All macros of the tree. -/
def leaves (t : Tree) : List NodeId := t.flatten.filter (!t.isFolder ·)

/-- Does the node have the name? -/
def isNamed (t : Tree) (name : Value) (n : NodeId) : Bool := (t.name n).same name

def findLeaves (t : Tree) (name : Value) : List NodeId := t.leaves.filter (t.isNamed name)

def contains (t : Tree) (n : NodeId) : Bool := t.flatten.contains n

/-- The first folder of the tree that lists `n`. -/
def findParent (t : Tree) (n : NodeId) : Option NodeId :=
  t.flatten.find? fun p => (t.children p).contains n

mutual

/-- Puts a document into the store. -/
def allocDocument (t : Tree) : Document → Tree × NodeId
  | .leaf name body => t.alloc (.leaf name body)
  | .folder name children =>
    let (t, cs) := allocAll t children
    t.alloc (.folder name cs)

def allocAll (t : Tree) : List Document → Tree × List NodeId
  | [] => (t, [])
  | d :: ds =>
    let (t, c) := allocDocument t d
    let (t, cs) := allocAll t ds
    (t, c :: cs)

end

def ofDocument (d : Document) : Tree :=
  let (t, r) := allocDocument ⟨[], 0⟩ d
  { t with root := r }

/-- The tree of an empty folder. -/
def ofName (name : String) : Tree := ⟨[.folder (.text name) []], 0⟩

/-- The tree that a program starts with. -/
def empty : Tree := ofName "/"

/-- The document at `n`, down to `depth` levels below it. -/
def documentTo (t : Tree) : (depth : Nat) → NodeId → Document
  | 0, n => .folder (t.name n) []
  | d + 1, n =>
    match t.node? n with
    | some (.leaf name body) => .leaf name body
    | some (.folder name cs) => .folder name (cs.map (t.documentTo d))
    | none => .folder (.text "") []

def document (t : Tree) (n : NodeId) : Document := t.documentTo (t.nodes.length + 1) n

end Tree

end Macros
