import Macros.Proofs.Tree.Alike
import Macros.Proofs.Tree.Graft
import Macros.Tree.Operation

/-!
What has been checked when an edit is not refused, and what the tree after it looks like.
-/

namespace Macros.Tree

open Relation

variable {t t' : Tree} {m n parent : NodeId} {x : Edit}

theorem map_eq_ok {ε α β : Type} {x : Except ε α} {f : α → β} {b : β} (h : x.map f = .ok b) :
    ∃ a, x = .ok a ∧ f a = b := by
  cases x with
  | error e => simp [Except.map] at h
  | ok a => exact ⟨a, rfl, Except.ok.inj h⟩

theorem apply_refused {e : StructuralError} (he : x.perform t = .error e) :
    x.apply t = t := by
  rw [Edit.apply, he]

theorem perform_apply (h : (x.perform t).isOk) : x.perform t = .ok (x.apply t) := by
  unfold Edit.apply
  cases hp : x.perform t with
  | ok u => rfl
  | error e => simp [hp, Except.isOk, Except.toBool] at h

theorem insertAt_perm (cs : List NodeId) (i : Nat) (n : NodeId) :
    (insertAt cs i n).Perm (n :: cs) := by
  have h : (insertAt cs i n).Perm (n :: (cs.take i ++ cs.drop i)) := List.perm_middle
  rwa [List.take_append_drop] at h

theorem checkInsert_ok (h : t.checkInsert parent n = .ok ()) :
    parent ∈ t.flatten ∧ parent ∉ t.walk n ∧ (∀ m ∈ t.flatten, (t.name m).isMember) ∧
      t.Fresh t.flatten (t.walk n) := by
  unfold checkInsert at h
  split at h
  · contradiction
  · next hp =>
    split at h
    · contradiction
    · split at h
      · contradiction
      · next hb =>
        unfold FreeName.comparable at h
        split at h
        · contradiction
        · next hc =>
          split at hc
          · next hm => exact ⟨by simpa [contains] using hp, by simpa using hb, by simpa using hm, checkNames_ok h⟩
          · contradiction

theorem addChild_ok {index : Option Int} (h : t.addChild parent n index = .ok t') :
    parent ∈ t.flatten ∧ parent ∉ t.walk n ∧ (∀ m ∈ t.flatten, (t.name m).isMember) ∧
      t.Fresh t.flatten (t.walk n) ∧
      ∃ cs, cs.Perm (n :: t.children parent) ∧ t' = t.setChildren parent cs := by
  unfold addChild at h
  split at h
  · contradiction
  · next hc =>
    obtain ⟨h1, h2, h3, h4⟩ := checkInsert_ok hc
    dsimp only at h
    split at h
    · refine ⟨h1, h2, h3, h4, _, ?_, (Except.ok.inj h).symm⟩
      cases index with
      | none => exact List.perm_append_singleton _ _
      | some i => exact insertAt_perm _ _ _
    · contradiction

theorem removeChild_ok (h : t.removeChild parent n = .ok t') :
    t.Lists parent n ∧ t' = t.setChildren parent ((t.children parent).filter (· != n)) := by
  unfold removeChild at h
  split at h
  · next hc => exact ⟨by simpa [Lists] using hc, (Except.ok.inj h).symm⟩
  · contradiction

theorem lt_of_lists (h : t.Lists parent n) : parent < t.nodes.length := by
  refine Nat.lt_of_not_le fun hle => ?_
  rw [Lists, children_of_length_le hle] at h
  simp at h

theorem findParent_some {d : NodeId} (h : t.findParent n = some d) : d ∈ t.flatten ∧ t.Lists d n :=
  ⟨List.mem_of_find?_eq_some h, by simpa [Lists] using List.find?_some h⟩

theorem isFolder_of_lists (h : t.Lists parent n) : t.isFolder parent := by
  unfold Lists children at h
  unfold isFolder
  cases hn : t.node? parent with
  | none => simp [hn] at h
  | some node =>
    rw [hn] at h
    cases node with
    | leaf => simp [Node.children] at h
    | folder => rfl

theorem lt_of_isFolder (h : t.isFolder n) : n < t.nodes.length := by
  refine Nat.lt_of_not_le fun hle => ?_
  simp [isFolder, node?, List.getElem?_eq_none hle] at h

/-- A node is dropped into a folder, but not next to what has no folder in the tree. -/
theorem dropPlace_ok {target : NodeId} {r : NodeId × Option Nat}
    (h : t.dropPlace target = .ok r) :
    t.isFolder r.1 ∧ (r.1 = target ∨ r.1 ∈ t.flatten ∧ t.Lists r.1 target) := by
  unfold dropPlace at h
  split at h
  · next hf => rw [← Except.ok.inj h]; exact ⟨hf, .inl rfl⟩
  · split at h
    · contradiction
    · next d hd =>
      rw [← Except.ok.inj h]
      have hl := findParent_some hd
      exact ⟨isFolder_of_lists hl.2, .inr hl⟩

theorem children_of_not_isFolder (h : t.isFolder n = false) : t.children n = [] := by
  refine List.eq_nil_iff_forall_not_mem.2 fun c hc => ?_
  have : t.isFolder n := isFolder_of_lists hc
  simp [h] at this

/-- What has been checked when a move is not refused, and what it comes to. -/
theorem move_cases {target : NodeId} (hm : t.move n target = .ok t') :
    ∃ source destination place u, n ≠ t.root ∧ t.findParent n = some source ∧
      t.dropPlace target = .ok (destination, place) ∧ n ≠ target ∧
      (t.isFolder n → destination ∉ t.walk n) ∧ t.removeChild source n = .ok u ∧
      t' = u.setChildren destination (match place with
        | none => u.children destination ++ [n]
        | some i => insertAt (u.children destination)
            (if destination = source && (t.children source).idxOf n < i then i - 1 else i) n) := by
  unfold move at hm
  split at hm
  · contradiction
  · next hroot =>
    split at hm
    · contradiction
    · next source hs =>
      split at hm
      · contradiction
      · next destination place hd =>
        split at hm
        · contradiction
        · next hb =>
          simp only [Bool.or_eq_true, decide_eq_true_eq, Bool.and_eq_true, not_or, not_and,
            List.contains_eq_mem] at hb
          obtain ⟨u, hu, rfl⟩ := map_eq_ok hm
          exact ⟨source, destination, place, u, hroot, hs, hd, hb.1, hb.2, hu, rfl⟩

/-- A node that moves leaves its folder and is added to another that is not below it; that folder is in the
tree if the target is. -/
theorem move_ok (h : t.Grounded) {target : NodeId} (hm : t.move n target = .ok t') :
    ∃ source destination u cs, source ∈ t.flatten ∧ t.removeChild source n = .ok u ∧
      t.isFolder destination ∧ (destination ∈ t.flatten ↔ target ∈ t.flatten) ∧
      ¬t.Holds n destination ∧ cs.Perm (n :: u.children destination) ∧
      t' = u.setChildren destination cs := by
  obtain ⟨source, destination, place, u, -, hs, hd, -, hb, hu, rfl⟩ := move_cases hm
  obtain ⟨hfolder, hplace⟩ := dropPlace_ok hd
  refine ⟨source, destination, u, _, (findParent_some hs).1, hu, hfolder, ?_, fun hh => ?_, ?_, rfl⟩
  · rcases hplace with rfl | ⟨hin, hl⟩
    · rfl
    · exact iff_of_true hin (h.mem_walk.2 ((h.mem_walk.1 hin).tail hl))
  · cases hn : t.isFolder n with
    | true => exact hb hn (h.mem_walk.2 hh)
    | false =>
      -- nothing is below a leaf, so the leaf would be the folder
      rcases ReflTransGen.cases_head hh with rfl | ⟨c, hc, -⟩
      · simp [hn] at hfolder
      · simp [Lists, children_of_not_isFolder hn] at hc
  · cases place with
    | none => exact List.perm_append_singleton _ _
    | some i => exact insertAt_perm _ _ _

theorem rename_ok (h : t.Grounded) {name : Value} (hr : t.rename n name = .ok t') :
    n ∈ t.flatten ∧ ∃ s node, t.uniqueName name (some n) = .ok s ∧ t.node? n = some node ∧
      t' = t.setNode n (node.setName (.text s)) := by
  unfold rename at hr
  split at hr
  · contradiction
  · next hc =>
    have hm : n ∈ t.flatten := by simpa [contains] using hc
    split at hr
    · contradiction
    · next s node hs hn => exact ⟨hm, s, node, hs, hn, (Except.ok.inj hr).symm⟩
    · next hn =>
      have := h.lt_of_mem_flatten hm
      simp [node?, this] at hn

theorem children_setName {node : Node} (hn : t.node? n = some node) (name : Value) (m : NodeId) :
    (t.setNode n (node.setName name)).children m = t.children m := by
  have hlt : n < t.nodes.length := (List.getElem?_eq_some_iff.1 hn).1
  unfold children
  rw [node?_setNode hlt]
  split
  · next hm => rw [hm, hn]; cases node <;> rfl
  · rfl

theorem name_setName {node : Node} (hn : t.node? n = some node) (name : Value) (m : NodeId) :
    (t.setNode n (node.setName name)).name m = if m = n then name else t.name m := by
  have hlt : n < t.nodes.length := (List.getElem?_eq_some_iff.1 hn).1
  unfold Tree.name
  rw [node?_setNode hlt]
  split
  · cases node <;> rfl
  · rfl

end Macros.Tree
