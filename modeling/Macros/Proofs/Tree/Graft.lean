import Macros.Proofs.Tree.Walk
import Mathlib.Data.List.Flatten

/-!
What becomes of the walks over a store when one folder lists other children: nothing, where the folder
is not reached; some nodes go, where children go; and where a child is added, the walk of the child
comes in once for every time that the folder is visited.
-/

namespace Macros.Tree

open Relation

variable {t t' : Tree} {m n parent r : NodeId}

theorem Grounded.of_lists (h : t.Grounded) (hr : t'.root = t.root)
    (hn : t.nodes.length ≤ t'.nodes.length) (hl : ∀ p c, t'.Lists p c → t.Lists p c) :
    t'.Grounded where
  root := hr ▸ Nat.lt_of_lt_of_le h.root hn
  exist p c hc := Nat.lt_of_lt_of_le (h.exist p c (hl p c hc)) hn
  acyclic n hc := h.acyclic n (TransGen.mono hl n n hc)

/-- A new node is below no other, so it is not below itself either. -/
theorem Grounded.alloc (h : t.Grounded) {node : Node} (hc : ∀ c ∈ node.children, c < t.nodes.length) :
    (t.alloc node).1.Grounded := by
  have hlists : ∀ p c, (t.alloc node).1.Lists p c →
      c < t.nodes.length ∧ (p = t.nodes.length ∨ t.Lists p c) := by
    intro p c hl
    rw [Lists, children_alloc] at hl
    split at hl
    · next hp => exact ⟨hc c hl, .inl hp⟩
    · exact ⟨h.exist p c hl, .inr hl⟩
  refine ⟨?_, fun p c hl => ?_, fun n hn => ?_⟩
  · simpa [Tree.alloc] using Nat.lt_succ_of_lt h.root
  · simpa [Tree.alloc] using Nat.lt_succ_of_lt (hlists p c hl).1
  · have hlt : n < t.nodes.length := by
      obtain ⟨p, -, hp⟩ := TransGen.tail'_iff.1 hn
      exact (hlists p n hp).1
    have hold : ∀ c, TransGen (t.alloc node).1.Lists n c → TransGen t.Lists n c := by
      intro c hc
      induction hc with
      | single hl => exact .single ((hlists _ _ hl).2.resolve_left (Nat.ne_of_lt hlt))
      | @tail b c hb hl ih =>
        obtain ⟨a, -, ha⟩ := TransGen.tail'_iff.1 hb
        exact ih.tail ((hlists _ _ hl).2.resolve_left (Nat.ne_of_lt (hlists a b ha).1))
    exact h.acyclic n (hold n hn)

theorem Grounded.lt_of_mem_walk (h : t.Grounded) (hn : n < t.nodes.length) (hm : m ∈ t.walk n) :
    m < t.nodes.length := by
  rcases ReflTransGen.cases_tail (h.mem_walk.1 hm) with rfl | ⟨p, -, hp⟩
  · exact hn
  · exact h.exist p m hp

theorem Grounded.lt_of_mem_flatten (h : t.Grounded) (hm : m ∈ t.flatten) : m < t.nodes.length :=
  h.lt_of_mem_walk h.root hm

/-- A walk sees only the children of the nodes that it visits. -/
theorem walk_congr (h : t.Grounded) (h' : t'.Grounded)
    (hc : ∀ p, t.Holds r p → t'.children p = t.children p) : t'.walk r = t.walk r := by
  induction r using h.induction with
  | step r ih =>
    rw [h.walk_eq, h'.walk_eq, hc r .refl]
    congr 1
    exact List.flatMap_congr fun c hl => ih c hl fun p hp => hc p (.head hl hp)

/-- A new node changes no walk from another one. -/
theorem flatten_alloc (h : t.Grounded) {node : Node}
    (hc : ∀ c ∈ node.children, c < t.nodes.length) : (t.alloc node).1.flatten = t.flatten := by
  refine walk_congr h (h.alloc hc) fun p hp => ?_
  rw [children_alloc, if_neg (Nat.ne_of_lt (h.lt_of_mem_flatten (h.mem_walk.2 hp)))]

/-- Where children go, walks lose nodes. -/
theorem walk_sublist (h : t.Grounded) (h' : t'.Grounded)
    (hc : ∀ p, (t'.children p).Sublist (t.children p)) (r : NodeId) :
    (t'.walk r).Sublist (t.walk r) := by
  induction r using h.induction with
  | step r ih =>
    rw [h.walk_eq, h'.walk_eq]
    refine .cons_cons r (.trans ?_ ((hc r).flatMap t.walk))
    exact List.Sublist.flatMap_right _ fun c hl => ih c ((hc r).subset hl)

/-- A folder lists a node more than before, and is not below that node. -/
structure Graft (t t' : Tree) (parent n : NodeId) : Prop where
  others : ∀ p, p ≠ parent → t'.children p = t.children p
  added : (t'.children parent).Perm (n :: t.children parent)
  above : ¬t.Holds n parent

namespace Graft

variable (g : Graft t t' parent n)
include g

theorem lists_iff {p c : NodeId} : t'.Lists p c ↔ t.Lists p c ∨ (p = parent ∧ c = n) := by
  by_cases hp : p = parent
  · subst hp
    rw [Lists, g.added.mem_iff, List.mem_cons, Lists]
    simp [or_comm]
  · rw [Lists, g.others p hp, Lists]
    simp [hp]

theorem holds_cases {a c : NodeId} (hl : t'.Holds a c) :
    t.Holds a c ∨ (t.Holds a parent ∧ t.Holds n c) := by
  induction hl with
  | refl => exact .inl .refl
  | tail _ hl ih =>
    rcases g.lists_iff.1 hl with hl | ⟨rfl, rfl⟩
    · exact ih.imp (·.tail hl) (And.imp_right (·.tail hl))
    · exact .inr ⟨ih.elim id And.left, .refl⟩

theorem acyclic (h : ∀ a, ¬TransGen t.Lists a a) (a : NodeId) : ¬TransGen t'.Lists a a := by
  intro hc
  obtain ⟨c, hac, hca⟩ := TransGen.tail'_iff.1 hc
  rcases g.lists_iff.1 hca with hca | ⟨rfl, rfl⟩
  · rcases g.holds_cases hac with hac | ⟨hap, hnc⟩
    · exact h a (TransGen.tail' hac hca)
    · exact g.above ((hnc.tail hca).trans hap)
  · exact g.above ((g.holds_cases hac).elim id And.left)

theorem walk_below (h : t.Grounded) (h' : t'.Grounded) : t'.walk n = t.walk n :=
  walk_congr h h' fun p hp => g.others p (by rintro rfl; exact g.above hp)

/-- Every visit of the folder brings a walk of the new child with it. -/
theorem count_walk (h : t.Grounded) (h' : t'.Grounded) (m r : NodeId) :
    (t'.walk r).count m = (t.walk r).count m + (t.walk r).count parent * (t.walk n).count m := by
  induction r using h'.induction with
  | step r ih =>
    have hsum : ∀ cs : List NodeId, (∀ c ∈ cs, t'.Lists r c) →
        (cs.flatMap t'.walk).count m = (cs.flatMap t.walk).count m +
          (cs.flatMap t.walk).count parent * (t.walk n).count m := by
      intro cs hcs
      induction cs with
      | nil => simp
      | cons c cs ihs =>
        have h1 := ih c (hcs c (by simp))
        have h2 := ihs fun d hd => hcs d (List.mem_cons_of_mem c hd)
        simp only [List.flatMap_cons, List.count_append, h1, h2, Nat.add_mul]
        omega
    rw [h.walk_eq r, h'.walk_eq r]
    by_cases hr : r = parent
    · subst hr
      -- the folder is visited once, at the start, and not below its children
      have hnone : ((t.children r).flatMap t.walk).count r = 0 := by
        refine List.count_eq_zero.2 fun hm => ?_
        obtain ⟨c, hc, hm⟩ := List.mem_flatMap.1 hm
        exact h.acyclic r (.head' hc (h.mem_walk.1 hm))
      have hadd := (g.added.flatMap_right t'.walk).count_eq m
      rw [List.flatMap_cons, List.count_append, g.walk_below h h', hsum _ fun c hc =>
        g.added.mem_iff.2 (List.mem_cons_of_mem n hc), hnone] at hadd
      simp only [List.count_cons, hadd, hnone, beq_self_eq_true, ↓reduceIte]
      omega
    · rw [g.others r hr]
      have := hsum (t.children r) fun c hc => g.lists_iff.2 (.inl hc)
      simp only [List.count_cons, this, beq_iff_eq, hr, ↓reduceIte, Nat.add_zero]
      omega

/-- A folder that is visited once gains the walk of the new child. -/
theorem walk_perm (h : t.Grounded) (h' : t'.Grounded) (hr : (t.walk r).count parent = 1) :
    (t'.walk r).Perm (t.walk r ++ t.walk n) := by
  refine List.perm_iff_count.2 fun m => ?_
  rw [g.count_walk h h', hr, List.count_append, Nat.one_mul]

theorem grounded (h : t.Grounded) (hr : t'.root = t.root)
    (hl : t'.nodes.length = t.nodes.length) (hn : n < t.nodes.length) : t'.Grounded where
  root := by rw [hr, hl]; exact h.root
  exist p c hc := by
    rw [hl]
    rcases g.lists_iff.1 hc with hc | ⟨-, rfl⟩
    · exact h.exist p c hc
    · exact hn
  acyclic := g.acyclic h.acyclic

end Graft

end Macros.Tree
