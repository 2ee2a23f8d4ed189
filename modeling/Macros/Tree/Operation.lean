import Macros.Tree.Edit

/-!
Whole histories of a tree: what is done to it, one edit after the other. An edit that is refused
leaves the tree as it was.
-/

namespace Macros

inductive Edit
  | addChild (parent n : NodeId) (index : Option Int)
  | removeChild (parent n : NodeId)
  | move (n target : NodeId)
  | rename (n : NodeId) (name : Value)
  | newLeaf (parent : Option NodeId) (name contents : Value) (language : Language)
  | newFolder (parent : Option NodeId) (name : Value)
  /-- A new node in no folder of the tree; a folder may list any nodes that there are. -/
  | loose (node : Node)

namespace Edit

/-- The nodes that an edit is about. -/
def nodes : Edit → List NodeId
  | addChild parent n _ => [parent, n]
  | removeChild parent n => [parent, n]
  | move n target => [n, target]
  | rename n _ => [n]
  | newLeaf parent _ _ _ => parent.toList
  | newFolder parent _ => parent.toList
  | loose node => node.children

/-- Are the nodes that an edit is about in the store? -/
def Known (x : Edit) (t : Tree) : Prop := ∀ n ∈ x.nodes, n < t.nodes.length

instance (x : Edit) (t : Tree) : Decidable (x.Known t) :=
  inferInstanceAs (Decidable (∀ n ∈ x.nodes, n < t.nodes.length))

/-- The tree that an edit leads to, or why it is refused. -/
def perform (t : Tree) : Edit → Except StructuralError Tree
  | addChild parent n index => t.addChild parent n index
  | removeChild parent n => t.removeChild parent n
  | move n target => t.move n target
  | rename n name => t.rename n name
  | newLeaf parent name contents language => (t.newLeaf parent name contents language).map (·.1)
  | newFolder parent name => (t.newFolder parent name).map (·.1)
  | loose node => .ok (t.alloc node).1

/-- The tree after an edit, also if that is refused. -/
def apply (t : Tree) (x : Edit) : Tree :=
  match x.perform t with
  | .ok t => t
  | .error _ => t

end Edit

namespace Tree

/-- The tree after edits, one after the other. -/
def edit (t : Tree) (xs : List Edit) : Tree := xs.foldl Edit.apply t

/-- Is every edit about nodes that are in the store when it comes? -/
def KnownAll (t : Tree) : List Edit → Prop
  | [] => True
  | x :: xs => x.Known t ∧ (x.apply t).KnownAll xs

instance : (t : Tree) → (xs : List Edit) → Decidable (t.KnownAll xs)
  | _, [] => isTrue trivial
  | t, x :: xs =>
    have := instDecidableKnownAll (x.apply t) xs
    inferInstanceAs (Decidable (x.Known t ∧ (x.apply t).KnownAll xs))

end Tree

end Macros
