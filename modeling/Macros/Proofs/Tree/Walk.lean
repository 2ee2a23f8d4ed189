import Macros.Tree.Basic
import Mathlib.Data.Finset.Card
import Mathlib.Data.Finset.Range
import Mathlib.Logic.Relation

/-!
Walks over a store of nodes in which no node is below itself. A walk then comes to its end before its
depth does, it visits just the nodes below its start, and each of them as often as it is listed by
the nodes visited.
-/

namespace Macros.Tree

open Relation

/-- A folder lists a node as its child. -/
def Lists (t : Tree) (p n : NodeId) : Prop := n ∈ t.children p

/-- A node is at another one or below it. -/
abbrev Holds (t : Tree) : NodeId → NodeId → Prop := ReflTransGen t.Lists

/-- All nodes that are listed exist, and none is below itself. -/
structure Grounded (t : Tree) : Prop where
  root : t.root < t.nodes.length
  exist : ∀ p n, t.Lists p n → n < t.nodes.length
  acyclic : ∀ n, ¬TransGen t.Lists n n

open Classical in
/-- How many nodes there are below a node. -/
noncomputable def size (t : Tree) (n : NodeId) : Nat :=
  ((Finset.range t.nodes.length).filter (TransGen t.Lists n)).card

variable {t t' : Tree} {m n p : NodeId}

theorem children_of_length_le (h : t.nodes.length ≤ n) : t.children n = [] := by
  simp [children, node?, List.getElem?_eq_none h]

theorem walkTo_of_children (h : t.children n = []) (d : Nat) : t.walkTo d n = [n] := by
  cases d with
  | zero => rfl
  | succ d => simp [walkTo, h]

namespace Grounded

variable (h : t.Grounded)
include h

open Classical in
theorem size_lt (hl : t.Lists p n) : t.size n < t.size p := by
  refine Finset.card_lt_card ((Finset.ssubset_iff_of_subset ?_).2 ⟨n, ?_, ?_⟩)
  · intro m hm
    rw [Finset.mem_filter] at hm ⊢
    exact ⟨hm.1, .head hl hm.2⟩
  · rw [Finset.mem_filter, Finset.mem_range]
    exact ⟨h.exist p n hl, .single hl⟩
  · rw [Finset.mem_filter]
    exact fun hm => h.acyclic n hm.2

open Classical in
theorem size_lt_length (n : NodeId) : t.size n < t.nodes.length := by
  unfold size
  conv_rhs => rw [← Finset.card_range t.nodes.length]
  refine Finset.card_lt_card ((Finset.ssubset_iff_of_subset (Finset.filter_subset _ _)).2 ?_)
  by_cases hn : n < t.nodes.length
  · exact ⟨n, Finset.mem_range.2 hn, fun hm => h.acyclic n (Finset.mem_filter.1 hm).2⟩
  · refine ⟨t.root, Finset.mem_range.2 h.root, fun hm => ?_⟩
    obtain ⟨m, hm, -⟩ := TransGen.head'_iff.1 (Finset.mem_filter.1 hm).2
    simp [Lists, children_of_length_le (Nat.le_of_not_lt hn)] at hm

theorem children_of_size (hs : t.size n ≤ 0) : t.children n = [] :=
  List.eq_nil_iff_forall_not_mem.2 fun _ hc => absurd (h.size_lt hc) (by omega)

/-- What passes from the children of a node to the node holds of every node. -/
theorem induction {P : NodeId → Prop} (step : ∀ n, (∀ c ∈ t.children n, P c) → P n) (n : NodeId) :
    P n := by
  induction hs : t.size n using Nat.strong_induction_on generalizing n with
  | _ k ih =>
    subst hs
    exact step n fun c hc => ih _ (h.size_lt hc) c rfl

/-- A walk does not depend on its depth, once that is enough. -/
theorem walkTo_eq {d e : Nat} (hd : t.size n ≤ d) (he : t.size n ≤ e) :
    t.walkTo d n = t.walkTo e n := by
  induction d generalizing n e with
  | zero =>
    have hc := h.children_of_size hd
    rw [walkTo_of_children hc, walkTo_of_children hc]
  | succ d ih =>
    cases e with
    | zero =>
      have hc := h.children_of_size he
      rw [walkTo_of_children hc, walkTo_of_children hc]
    | succ e =>
      simp only [walkTo, List.cons.injEq, true_and]
      refine List.flatMap_congr fun c hc => ?_
      have := h.size_lt hc
      exact ih (by omega) (by omega)

theorem walk_eq (n : NodeId) : t.walk n = n :: (t.children n).flatMap t.walk := by
  have hn := h.size_lt_length n
  obtain ⟨k, hk⟩ : ∃ k, t.nodes.length = k + 1 := ⟨t.nodes.length - 1, by omega⟩
  show t.walkTo t.nodes.length n = _
  rw [hk, walkTo]
  congr 1
  refine List.flatMap_congr fun c hc => ?_
  have := h.size_lt hc
  exact h.walkTo_eq (by omega) (by omega)

/-- A walk visits just the nodes below its start. -/
theorem mem_walk : m ∈ t.walk n ↔ t.Holds n m := by
  induction n using h.induction with
  | step n ih =>
    rw [h.walk_eq, List.mem_cons, List.mem_flatMap, Holds, ReflTransGen.cases_head_iff]
    refine or_congr eq_comm (exists_congr fun c => and_congr_right fun hc => ih c hc)

/-- A walk visits its start, and else every node as often as the nodes visited list it. -/
theorem walk_perm (n : NodeId) : (t.walk n).Perm (n :: (t.walk n).flatMap t.children) := by
  induction n using h.induction with
  | step n ih =>
    rw [h.walk_eq, List.flatMap_cons, List.flatMap_assoc]
    refine .cons n ((List.Perm.flatMap_left _ ih).trans ?_)
    exact (List.flatMap_append_perm (t.children n) (fun c => [c])
      fun c => (t.walk c).flatMap t.children).symm.trans (by simp)

end Grounded

end Macros.Tree
