import Macros.Proofs.Tree.Edited
import Mathlib.Data.List.Pairwise

/-!
The tree stays a tree. Whatever folders outside of it share, no node ever gets below itself, and each
node of the tree but its root is in one folder of it, at one place.
-/

namespace Macros.Tree

open Relation

variable {t : Tree} {m n p : NodeId}

/-- No node is below itself, and each node of the tree has one owner in it. -/
structure SingleOwner (t : Tree) : Prop where
  /-- This is about all nodes, also those outside of the tree. -/
  acyclic : ∀ n, ¬TransGen t.Lists n n
  reached : ∀ n, t.Holds t.root n → t.flatten.count n = 1
  unreached : ∀ n, ¬t.Holds t.root n → n ∉ t.flatten
  top : ∀ p, t.Holds t.root p → ¬t.Lists p t.root
  owner : ∀ n, t.Holds t.root n → n ≠ t.root → ∃ p, t.Holds t.root p ∧
    (t.children p).count n = 1 ∧ ∀ q, t.Holds t.root q → t.Lists q n → q = p

@[simp] theorem children_ofName (name : String) (n : NodeId) : (ofName name).children n = [] := by
  cases n <;> rfl

theorem single_ofName (name : String) : (ofName name).Single where
  root := Nat.zero_lt_one
  exist p n hl := by simp [Lists] at hl
  acyclic n hc := by
    obtain ⟨m, hl, -⟩ := TransGen.head'_iff.1 hc
    simp [Lists] at hl
  nodup := by simp [flatten, walk, walkTo_of_children (children_ofName name _)]

namespace Single

variable (h : t.Single)
include h

/-- The folders of the tree list every node but the root, once altogether. -/
theorem listed : (t.root :: t.flatten.flatMap t.children).Nodup :=
  (h.walk_perm t.root).nodup_iff.1 h.nodup

/-- Two folders of the tree share no child. -/
theorem owner_unique (hp : p ∈ t.flatten) (hm : m ∈ t.flatten) (hpn : t.Lists p n)
    (hmn : t.Lists m n) : m = p := by
  by_contra hne
  have hd := (List.nodup_flatMap.1 (List.nodup_cons.1 h.listed).2).2
  have : Std.Symm (Function.onFun List.Disjoint t.children) := ⟨fun _ _ hd => hd.symm⟩
  exact hd.forall hm hp hne hmn hpn

theorem singleOwner : t.SingleOwner where
  acyclic := h.acyclic
  reached n hn := List.count_eq_one_of_mem h.nodup (h.mem_walk.2 hn)
  unreached n hn := mt h.mem_walk.1 hn
  top p hp hl :=
    (List.nodup_cons.1 h.listed).1 (List.mem_flatMap.2 ⟨p, h.mem_walk.2 hp, hl⟩)
  owner n hn hne := by
    rcases ReflTransGen.cases_tail hn with rfl | ⟨p, hp, hl⟩
    · exact absurd rfl hne
    · have hin := h.mem_walk.2 hp
      refine ⟨p, hp, List.count_eq_one_of_mem (h.nodup_children h.nodup hin) hl, fun q hq hql => ?_⟩
      exact h.owner_unique hin (h.mem_walk.2 hq) hl hql

end Single

/-- After any edits of an empty tree it is a tree still; one that is refused changes no node. -/
theorem edit_singleOwner (xs : List Edit) (hx : Tree.empty.KnownAll xs) :
    (Tree.empty.edit xs).SingleOwner ∧
      ∀ x e, x.perform (Tree.empty.edit xs) = .error e →
        Tree.empty.edit (xs ++ [x]) = Tree.empty.edit xs := by
  refine ⟨((single_ofName "/").edit hx).singleOwner, fun x e he => ?_⟩
  rw [edit, List.foldl_append]
  simp only [List.foldl_cons, List.foldl_nil, Edit.apply]
  rw [edit] at he
  rw [he, edit]

/-- A folder that is made of nodes of the tree comes into the tree only when they are out of it and
none would come in twice. -/
def sharing : List Edit :=
  [.newFolder none (.text "F"), .newLeaf (some 1) (.text "M") (.text "/echo") .native,
    .loose (.folder (.text "G") [1, 2]), .addChild 0 3 none, .removeChild 0 1, .addChild 0 3 none,
    .removeChild 1 2, .addChild 0 3 none, .addChild 1 0 none, .move 3 1, .move 2 0]

theorem sharing_singleOwner : Tree.empty.KnownAll sharing ∧ (Tree.empty.edit sharing).SingleOwner := by
  have h : Tree.empty.KnownAll sharing := by decide +kernel
  exact ⟨h, (edit_singleOwner sharing h).1⟩

end Macros.Tree
