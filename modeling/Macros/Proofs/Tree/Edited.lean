import Macros.Proofs.Tree.Edits
import Mathlib.Data.List.Perm.Subperm

/-!
What an edit comes to when it is not refused: nodes go or change places, or new nodes come in whose
names differ from all others, or one node gets another name. Whatever it is, no node gets below
itself, inside the tree or outside, and each node of the tree stays at one place in it.
-/

namespace Macros.Tree

open Relation

variable {t t' : Tree} {m n parent : NodeId}

/-- What an edit that is not refused does to the nodes of the tree. -/
inductive Edited (t t' : Tree) : Prop
  /-- Nodes go or change places. -/
  | loses (hf : t'.flatten.Subperm t.flatten) (hn : ∀ m ∈ t'.flatten, t'.name m = t.name m)
  /-- Nodes come in, with names of their own. -/
  | gains (ns : List NodeId) (hf : t'.flatten.Perm (t.flatten ++ ns))
    (hn : ∀ m ∈ t.flatten, t'.name m = t.name m ∧ (t'.name m).isMember)
    (hnew : t'.Fresh t.flatten ns)

/-- A node of the tree has got another name. -/
structure Renamed (t t' : Tree) (n : NodeId) (name : String) : Prop where
  mem : n ∈ t.flatten
  flatten : t'.flatten = t.flatten
  name : t'.name n = .text name
  others : ∀ m, m ≠ n → t'.name m = t.name m

/-- Nodes outside of the tree have no part in it. -/
theorem Edited.of_flatten {u : Tree} (h : Edited u t') (hf : u.flatten = t.flatten)
    (hn : ∀ m ∈ t.flatten, u.name m = t.name m) : Edited t t' := by
  cases h with
  | loses hs hm =>
    rw [hf] at hs
    exact .loses hs fun m h' => (hm m h').trans (hn m (hs.subset h'))
  | gains ns hs hm hnew =>
    rw [hf] at hs hm hnew
    exact .gains ns hs (fun m h' => ⟨(hm m h').1.trans (hn m h'), (hm m h').2⟩) hnew

theorem Fresh.congr {taken ns : List NodeId} (h : t.Fresh taken ns) (ht : ∀ m ∈ taken, t'.name m = t.name m)
    (hn : ∀ m ∈ ns, t'.name m = t.name m) : t'.Fresh taken ns := by
  have ha : ∀ m n, t'.name m = t.name m → t'.name n = t.name n →
      t'.namedAlike m n = t.namedAlike m n := by
    intro m n h1 h2
    rw [namedAlike, namedAlike, h1, h2]
  refine ⟨fun n hm => ?_, fun n hm m hk => ?_, ?_⟩
  · rw [hn n hm]
    exact h.members n hm
  · rw [ha n m (hn n hm) (ht m hk)]
    exact h.taken n hm m hk
  · refine h.new.imp_of_mem fun hm hk => ?_
    rw [ha _ _ (hn _ hk) (hn _ hm)]
    exact id

theorem graft_setChildren (hp : parent < t.nodes.length) {cs : List NodeId}
    (hc : cs.Perm (n :: t.children parent)) (ha : ¬t.Holds n parent) :
    Graft t (t.setChildren parent cs) parent n where
  others p hne := by rw [children_setChildren hp, if_neg hne]
  added := by rw [children_setChildren hp, if_pos rfl]; exact hc
  above := ha

/-- A folder that a node is added to brings the nodes below that into the tree, and no others. -/
theorem addChild_perm (h : t.Grounded) (hf : t.flatten.Nodup) (hn : n < t.nodes.length)
    {index : Option Int} (ha : t.addChild parent n index = .ok t') :
    t'.Grounded ∧ t'.flatten.Perm (t.flatten ++ t.walk n) := by
  obtain ⟨hp, hb, -, -, cs, hc, rfl⟩ := addChild_ok ha
  have g := graft_setChildren (h.lt_of_mem_flatten hp) hc (mt h.mem_walk.2 hb)
  have h' := g.grounded h rfl (length_setChildren _ _) hn
  exact ⟨h', g.walk_perm h h' (List.count_eq_one_of_mem hf hp)⟩

theorem addChild_edited (h : t.Grounded) (hf : t.flatten.Nodup) (hn : n < t.nodes.length)
    {index : Option Int} (ha : t.addChild parent n index = .ok t') : t'.Grounded ∧ Edited t t' := by
  obtain ⟨h', hperm⟩ := addChild_perm h hf hn ha
  obtain ⟨hp, -, hmem, hfresh, cs, -, rfl⟩ := addChild_ok ha
  have hname := fun m => name_setChildren parent (h.lt_of_mem_flatten hp) cs m
  refine ⟨h', .gains (t.walk n) hperm (fun m hm => ⟨hname m, ?_⟩) ?_⟩
  · rw [hname]
    exact hmem m hm
  · exact hfresh.congr (fun m _ => hname m) fun m _ => hname m

theorem addNew_ok {node : Node} {r : Tree × NodeId} (ha : t.addNew parent node = .ok r) :
    (t.alloc node).1.addChild parent t.nodes.length none = .ok r.1 := by
  obtain ⟨u, hu, rfl⟩ := map_eq_ok ha
  exact hu

theorem lt_length_alloc (node : Node) : t.nodes.length < (t.alloc node).1.nodes.length := by
  simp [alloc]

theorem addNew_edited (h : t.Grounded) (hf : t.flatten.Nodup) {node : Node} (hc : node.children = [])
    {r : Tree × NodeId} (ha : t.addNew parent node = .ok r) : r.1.Grounded ∧ Edited t r.1 := by
  have hnone : ∀ c ∈ node.children, c < t.nodes.length := by simp [hc]
  have hflat := flatten_alloc h hnone
  obtain ⟨h2, h3⟩ := addChild_edited (h.alloc hnone) (by rw [hflat]; exact hf) (lt_length_alloc node)
    (addNew_ok ha)
  exact ⟨h2, h3.of_flatten hflat fun m hm => name_alloc node (h.lt_of_mem_flatten hm)⟩

theorem setChildren_sublist (hp : parent < t.nodes.length) {cs : List NodeId}
    (hc : cs.Sublist (t.children parent)) (p : NodeId) :
    ((t.setChildren parent cs).children p).Sublist (t.children p) := by
  rw [children_setChildren hp]
  split
  · next he => rw [he]; exact hc
  · exact .refl _

theorem Grounded.setChildren_of_sublist (h : t.Grounded) (hp : parent < t.nodes.length)
    {cs : List NodeId} (hc : cs.Sublist (t.children parent)) : (t.setChildren parent cs).Grounded :=
  h.of_lists rfl (Nat.le_of_eq (length_setChildren _ _).symm) fun p _ hl =>
    (setChildren_sublist hp hc p).subset hl

theorem removeChild_edited (h : t.Grounded) (hr : t.removeChild parent n = .ok t') :
    t'.Grounded ∧ Edited t t' := by
  obtain ⟨hl, rfl⟩ := removeChild_ok hr
  have hp := lt_of_lists hl
  have hs : ((t.children parent).filter (· != n)).Sublist (t.children parent) := List.filter_sublist
  have h' := h.setChildren_of_sublist hp hs
  refine ⟨h', .loses ?_ fun m _ => name_setChildren parent hp _ m⟩
  exact (walk_sublist h h' (setChildren_sublist hp hs) t.root).subperm

/-- In a tree that lists every node once, a child is in its folder at one place. -/
theorem Grounded.nodup_children (h : t.Grounded) (hf : t.flatten.Nodup) (hp : parent ∈ t.flatten) :
    (t.children parent).Nodup := by
  have hn := (h.walk_perm t.root).nodup_iff.1 hf
  exact (List.nodup_flatMap.1 (List.nodup_cons.1 hn).2).1 parent hp

/-- Taking a child out of a folder is undone by grafting it there. -/
theorem graft_of_removeChild (h : t.Grounded) (hf : t.flatten.Nodup) (hp : parent ∈ t.flatten)
    (hr : t.removeChild parent n = .ok t') : Graft t' t parent n := by
  obtain ⟨hl, rfl⟩ := removeChild_ok hr
  have hlt := lt_of_lists hl
  have hs : ((t.children parent).filter (· != n)).Sublist (t.children parent) := List.filter_sublist
  refine ⟨fun p hne => ?_, ?_, fun hh => ?_⟩
  · rw [children_setChildren hlt, if_neg hne]
  · rw [children_setChildren hlt, if_pos rfl, ← (h.nodup_children hf hp).erase_eq_filter]
    exact List.perm_cons_erase hl
  · have hh : t.Holds n parent :=
      ReflTransGen.mono (fun p _ hc => (setChildren_sublist hlt hs p).subset hc) n parent hh
    exact h.acyclic parent (.head' hl hh)

/-- A child that is taken out of a folder of the tree takes the nodes below it along, and no others. -/
theorem removeChild_perm (h : t.Grounded) (hf : t.flatten.Nodup) (hp : parent ∈ t.flatten)
    (hr : t.removeChild parent n = .ok t') : t'.Grounded ∧ t.flatten.Perm (t'.flatten ++ t.walk n) := by
  have g := graft_of_removeChild h hf hp hr
  have h' := (removeChild_edited h hr).1
  obtain ⟨-, rfl⟩ := removeChild_ok hr
  -- the folder was visited once, and it is not below the child
  have hself := g.count_walk h' h parent t.root
  have hone : (t.walk t.root).count parent = 1 := List.count_eq_one_of_mem hf hp
  rw [hone, List.count_eq_zero.2 (mt h'.mem_walk.1 g.above)] at hself
  rw [g.walk_below h' h]
  exact ⟨h', g.walk_perm h' h (by omega)⟩

/-- A node that moves inside the tree brings no node in and takes none out. One that is dropped into a folder
outside of the tree is lost to it, with all nodes below. -/
theorem move_perm (h : t.Grounded) (hf : t.flatten.Nodup) {target : NodeId}
    (hm : t.move n target = .ok t') :
    t'.Grounded ∧ (∀ m, t'.name m = t.name m) ∧ (target ∈ t.flatten → t'.flatten.Perm t.flatten) ∧
      (target ∉ t.flatten → t.flatten.Perm (t'.flatten ++ t.walk n)) := by
  obtain ⟨source, destination, u, cs, hs, hu, hd, hin, hb, hc, rfl⟩ := move_ok h hm
  obtain ⟨h0, hperm⟩ := removeChild_perm h hf hs hu
  obtain ⟨hl, rfl⟩ := removeChild_ok hu
  have hlt := lt_of_lists hl
  have hsub := setChildren_sublist hlt (List.filter_sublist (p := (· != n)) (l := t.children source))
  generalize hu' : t.setChildren source ((t.children source).filter (· != n)) = u at *
  have hlen : u.nodes.length = t.nodes.length := by rw [← hu', length_setChildren]
  have hname : ∀ m, u.name m = t.name m := by rw [← hu']; exact name_setChildren _ hlt _
  have hdest : destination < u.nodes.length := by rw [hlen]; exact lt_of_isFolder hd
  have g := graft_setChildren hdest hc fun hh =>
    hb (ReflTransGen.mono (fun p _ hc => (hsub p).subset hc) n destination hh)
  have h1 := g.grounded h0 rfl (length_setChildren _ _) (by rw [hlen]; exact h.exist _ _ hl)
  have hwalk : t.walk n = u.walk n := (graft_of_removeChild h hf hs hu).walk_below h0 h
  have hstill : destination ∈ u.flatten ↔ target ∈ t.flatten := by
    rw [← hin, hperm.mem_iff, List.mem_append, or_iff_left (mt h.mem_walk.1 hb)]
  refine ⟨h1, fun m => (name_setChildren _ hdest _ m).trans (hname m), fun ht => ?_, fun ht => ?_⟩
  · have hnodup : u.flatten.Nodup := (List.nodup_append.1 (hperm.nodup_iff.1 hf)).1
    have hgain := g.walk_perm h0 h1 (List.count_eq_one_of_mem hnodup (hstill.2 ht))
    rw [← hwalk] at hgain
    exact hgain.trans hperm.symm
  · have hkeep : (u.setChildren destination cs).flatten = u.flatten :=
      walk_congr h0 h1 fun p hp => g.others p fun he => mt hstill.1 ht (h0.mem_walk.2 (he ▸ hp))
    rwa [hkeep]

theorem move_edited (h : t.Grounded) (hf : t.flatten.Nodup) {target : NodeId}
    (hm : t.move n target = .ok t') : t'.Grounded ∧ Edited t t' := by
  obtain ⟨h', hname, hin, hout⟩ := move_perm h hf hm
  refine ⟨h', .loses ?_ fun m _ => hname m⟩
  by_cases ht : target ∈ t.flatten
  · exact (hin ht).subperm
  · exact (List.sublist_append_left _ _).subperm.trans (hout ht).symm.subperm

theorem rename_renamed (h : t.Grounded) {name : Value} (hr : t.rename n name = .ok t') :
    t'.Grounded ∧ ∃ s, t.uniqueName name (some n) = .ok s ∧ Renamed t t' n s := by
  obtain ⟨hm, s, node, hs, hn, rfl⟩ := rename_ok h hr
  have hc := children_setName hn (.text s)
  have h' : (t.setNode n (node.setName (.text s))).Grounded :=
    h.of_lists rfl (Nat.le_of_eq List.length_set.symm) fun p c hl => by rwa [Lists, hc] at hl
  refine ⟨h', s, hs, hm, walk_congr h h' fun p _ => hc p, ?_, fun m hne => ?_⟩
  · rw [name_setName hn, if_pos rfl]
  · rw [name_setName hn, if_neg hne]

theorem newLeaf_edited (h : t.Grounded) (hf : t.flatten.Nodup) {folder : Option NodeId}
    {name contents : Value} {language : Language} {r : Tree × NodeId}
    (ha : t.newLeaf folder name contents language = .ok r) : r.1.Grounded ∧ Edited t r.1 := by
  unfold newLeaf at ha
  split at ha
  · contradiction
  · exact addNew_edited h hf rfl ha

theorem newFolder_edited (h : t.Grounded) (hf : t.flatten.Nodup) {folder : Option NodeId}
    {name : Value} {r : Tree × NodeId} (ha : t.newFolder folder name = .ok r) :
    r.1.Grounded ∧ Edited t r.1 := by
  unfold newFolder at ha
  split at ha
  · contradiction
  · exact addNew_edited h hf rfl ha

theorem alloc_edited (h : t.Grounded) {node : Node} (hc : ∀ c ∈ node.children, c < t.nodes.length) :
    (t.alloc node).1.Grounded ∧ Edited t (t.alloc node).1 := by
  have hf := flatten_alloc h hc
  refine ⟨h.alloc hc, .loses (by rw [hf]) fun m hm => name_alloc node ?_⟩
  rw [hf] at hm
  exact h.lt_of_mem_flatten hm

theorem perform_edited (h : t.Grounded) (hf : t.flatten.Nodup) {x : Edit} (hx : x.Known t)
    (hp : x.perform t = .ok t') : t'.Grounded ∧
      (((∀ n name, x ≠ .rename n name) ∧ Edited t t') ∨ ∃ n name s,
        x = .rename n name ∧ t.uniqueName name (some n) = .ok s ∧ Renamed t t' n s) := by
  cases x with
  | addChild folder n index =>
    obtain ⟨h', he⟩ := addChild_edited h hf (hx n (by simp [Edit.nodes])) hp
    exact ⟨h', .inl ⟨nofun, he⟩⟩
  | removeChild folder n =>
    obtain ⟨h', he⟩ := removeChild_edited h hp
    exact ⟨h', .inl ⟨nofun, he⟩⟩
  | move n target =>
    obtain ⟨h', he⟩ := move_edited h hf hp
    exact ⟨h', .inl ⟨nofun, he⟩⟩
  | rename n name =>
    obtain ⟨h', s, hs, hr⟩ := rename_renamed h hp
    exact ⟨h', .inr ⟨n, name, s, rfl, hs, hr⟩⟩
  | newLeaf folder name contents language =>
    obtain ⟨r, hr, rfl⟩ := map_eq_ok hp
    obtain ⟨h', he⟩ := newLeaf_edited h hf hr
    exact ⟨h', .inl ⟨nofun, he⟩⟩
  | newFolder folder name =>
    obtain ⟨r, hr, rfl⟩ := map_eq_ok hp
    obtain ⟨h', he⟩ := newFolder_edited h hf hr
    exact ⟨h', .inl ⟨nofun, he⟩⟩
  | loose node =>
    obtain rfl := Except.ok.inj hp
    obtain ⟨h', he⟩ := alloc_edited h hx
    exact ⟨h', .inl ⟨nofun, he⟩⟩

/-- No node comes into the tree a second time. -/
theorem Edited.nodup (h : Edited t t') (hf : t.flatten.Nodup) : t'.flatten.Nodup := by
  cases h with
  | loses hs _ =>
    obtain ⟨ns, hp, hs⟩ := hs
    exact hp.nodup_iff.1 (hf.sublist hs)
  | gains ns hs _ hnew =>
    rw [hs.nodup_iff, List.nodup_append]
    refine ⟨hf, hnew.new.imp fun ha => (ne_of_not_namedAlike ha).symm, fun m hm n hn => ?_⟩
    exact (ne_of_not_namedAlike (hnew.taken n hn m hm)).symm

/-- A tree whose nodes are each visited once. -/
structure Single (t : Tree) : Prop extends t.Grounded where
  nodup : t.flatten.Nodup

theorem Single.apply (h : t.Single) {x : Edit} (hx : x.Known t) : (x.apply t).Single := by
  unfold Edit.apply
  split
  · next hp =>
    obtain ⟨h1, ⟨-, h2⟩ | ⟨n, name, s, -, -, h2⟩⟩ := perform_edited h.toGrounded h.nodup hx hp
    · exact ⟨h1, h2.nodup h.nodup⟩
    · exact ⟨h1, by rw [h2.flatten]; exact h.nodup⟩
  · exact h

theorem Single.edit (h : t.Single) {xs : List Edit} (hx : t.KnownAll xs) : (t.edit xs).Single := by
  induction xs generalizing t with
  | nil => exact h
  | cons x xs ih => exact ih (h.apply hx.1) hx.2

end Macros.Tree
