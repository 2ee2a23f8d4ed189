import Macros.Proofs.Tree.Single

/-!
Where nodes come into the tree and where they leave it. A node that is added or taken out takes along what is
below it and nothing else, and the other edits keep the nodes that there are. But the folder that a node
is dropped into is not looked for in the tree, and what goes into one that is outside of it is lost.
-/

namespace Macros

/-- What becomes of the nodes of the tree when an edit is not refused. -/
def Edit.Conserves (t t' : Tree) : Edit → Prop
  | addChild _ n _ => t'.flatten.Perm (t.flatten ++ t.walk n)
  | removeChild parent n => parent ∈ t.flatten → t.flatten.Perm (t'.flatten ++ t.walk n)
  | move n target => (t'.flatten.Perm t.flatten ↔ target ∈ t.flatten) ∧
      (target ∉ t.flatten → t.flatten.Perm (t'.flatten ++ t.walk n))
  | rename _ _ => t'.flatten = t.flatten
  | newLeaf _ _ _ _ => t'.flatten.Perm (t.flatten ++ [t.nodes.length])
  | newFolder _ _ => t'.flatten.Perm (t.flatten ++ [t.nodes.length])
  | loose _ => t'.flatten = t.flatten

namespace Tree

variable {t t' : Tree} {m n parent : NodeId}

theorem addNew_perm (h : t.Single) {node : Node} (hc : node.children = []) {r : Tree × NodeId}
    (ha : t.addNew parent node = .ok r) : r.1.flatten.Perm (t.flatten ++ [t.nodes.length]) := by
  have hnone : ∀ c ∈ node.children, c < t.nodes.length := by simp [hc]
  have hflat := flatten_alloc h.toGrounded hnone
  have h1 := h.toGrounded.alloc hnone
  have hperm := (addChild_perm h1 (by rw [hflat]; exact h.nodup) (lt_length_alloc node) (addNew_ok ha)).2
  have hwalk : (t.alloc node).1.walk t.nodes.length = [t.nodes.length] := by
    rw [h1.walk_eq, children_alloc, if_pos rfl, hc]
    rfl
  rwa [hflat, hwalk] at hperm

/-- A move keeps the nodes of the tree just if its target is one of them. -/
theorem move_conserves (h : t.Single) {target : NodeId} (hm : t.move n target = .ok t') :
    (Edit.move n target).Conserves t t' := by
  obtain ⟨-, -, hin, hout⟩ := move_perm h.toGrounded h.nodup hm
  refine ⟨⟨fun hperm => ?_, hin⟩, hout⟩
  by_contra ht
  have hlength := (hout ht).length_eq
  rw [List.length_append, hperm.length_eq] at hlength
  have hself : 0 < (t.walk n).length := List.length_pos_of_mem (h.mem_walk.2 .refl)
  omega

/-- Edits bring nodes into the tree and take them out as they should, but for a move to a target outside of
it; one that is refused leaves all folders and names as they were. -/
theorem perform_conserves (h : t.Single) {x : Edit} (hx : x.Known t) :
    (∀ t', x.perform t = .ok t' → x.Conserves t t') ∧ ∀ e, x.perform t = .error e → x.apply t = t := by
  refine ⟨fun t' hp => ?_, fun e => apply_refused⟩
  cases x with
  | addChild folder n index => exact (addChild_perm h.toGrounded h.nodup (hx n (by simp [Edit.nodes])) hp).2
  | removeChild folder n => exact fun hin => (removeChild_perm h.toGrounded h.nodup hin hp).2
  | move n target => exact move_conserves h hp
  | rename n name =>
    obtain ⟨-, s, -, hr⟩ := rename_renamed h.toGrounded hp
    exact hr.flatten
  | newLeaf folder name contents language =>
    obtain ⟨r, hr, rfl⟩ := map_eq_ok hp
    unfold newLeaf at hr
    split at hr
    · contradiction
    · exact addNew_perm h rfl hr
  | newFolder folder name =>
    obtain ⟨r, hr, rfl⟩ := map_eq_ok hp
    unfold newFolder at hr
    split at hr
    · contradiction
    · exact addNew_perm h rfl hr
  | loose node =>
    obtain rfl := Except.ok.inj hp
    exact flatten_alloc h.toGrounded hx

/-- A folder with a macro, another macro, and a folder outside of the tree that lists the first macro as well. -/
def lent : List Edit :=
  [.newFolder none (.text "F"), .newLeaf (some 1) (.text "M") (.text "/echo") .native,
    .newLeaf none (.text "N") (.text "") .lua, .loose (.folder (.text "G") [2])]

theorem lent_conserves : (Tree.empty.edit lent).Single ∧
    (∃ t', (Tree.empty.edit lent).move 2 3 = .ok t' ∧ t'.flatten.Perm (Tree.empty.edit lent).flatten) ∧
    (∃ t', (Tree.empty.edit lent).move 1 4 = .ok t' ∧
      (Tree.empty.edit lent).flatten.Perm (t'.flatten ++ (Tree.empty.edit lent).walk 1)) ∧
    ∃ t', (Tree.empty.edit lent).removeChild 0 1 = .ok t' ∧
      (Tree.empty.edit lent).flatten.Perm (t'.flatten ++ (Tree.empty.edit lent).walk 1) := by
  have hx : Tree.empty.KnownAll lent := by decide +kernel
  have h : (Tree.empty.edit lent).Single := (single_ofName "/").edit hx
  have hinside := perform_apply (t := Tree.empty.edit lent) (x := .move 2 3) (by decide +kernel)
  have houtside := perform_apply (t := Tree.empty.edit lent) (x := .move 1 4) (by decide +kernel)
  have hout := perform_apply (t := Tree.empty.edit lent) (x := .removeChild 0 1) (by decide +kernel)
  refine ⟨h, ⟨_, hinside, ?_⟩, ⟨_, houtside, ?_⟩, ⟨_, hout, ?_⟩⟩
  · exact ((perform_conserves h (by decide +kernel)).1 _ hinside).1.2 (by decide +kernel)
  · exact ((perform_conserves h (by decide +kernel)).1 _ houtside).2 (by decide +kernel)
  · exact (perform_conserves h (by decide +kernel)).1 _ hout (by decide +kernel)

/-- A macro, and a folder outside of the tree. -/
def outside : List Edit :=
  [.newLeaf none (.text "M") (.text "") .native, .loose (.folder (.text "F") [])]

/-- Dropped into that folder, the macro is not in the tree any more. -/
theorem move_outside_loses : (Tree.empty.edit outside).Single ∧ 1 ∈ (Tree.empty.edit outside).flatten ∧
    ∃ t', (Tree.empty.edit outside).move 1 2 = .ok t' ∧ 1 ∉ t'.flatten := by
  have hx : Tree.empty.KnownAll outside := by decide +kernel
  have hp := perform_apply (t := Tree.empty.edit outside) (x := .move 1 2) (by decide +kernel)
  exact ⟨(single_ofName "/").edit hx, by decide +kernel, _, hp, by decide +kernel⟩

end Tree

end Macros
