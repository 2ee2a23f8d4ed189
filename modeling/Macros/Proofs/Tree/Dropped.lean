import Macros.Proofs.Tree.Single

/-!
Where a node comes to lie that is dropped on another one: at the end of a folder, or in front of a macro. The
place is counted before the node is taken out of its old folder, so it is one too far when that is the same
folder and the node stood in front.
-/

namespace Macros.Tree

open Relation

variable {t t' u : Tree} {m n p source target : NodeId}

/-- A node has come out of its folder and into `folder`, between the children `before` and the children `after`;
all else is where it was. -/
structure DroppedInto (t t' : Tree) (n folder : NodeId) (before after : List NodeId) : Prop where
  inside : folder ∈ t.flatten
  rest : (t.children folder).filter (· != n) = before ++ after
  placed : t'.children folder = before ++ n :: after
  left : ∀ p ∈ t.flatten, p ≠ folder → t'.children p = (t.children p).filter (· != n)
  outside : ∀ p, p ∉ t.flatten → t'.children p = t.children p
  names : ∀ m, t'.name m = t.name m

/-! The folder of a node. -/

namespace Single

variable (h : t.Single)
include h

theorem findParent_eq (hp : p ∈ t.flatten) (hl : t.Lists p n) : t.findParent n = some p := by
  cases hf : t.findParent n with
  | none =>
    have hnone := List.find?_eq_none.1 hf p hp
    rw [List.contains_iff_mem] at hnone
    exact absurd hl hnone
  | some q =>
    obtain ⟨hq, hql⟩ := findParent_some hf
    rw [h.owner_unique hp hq hl hql]

theorem exists_owner (hn : n ∈ t.flatten) (hne : n ≠ t.root) : ∃ p ∈ t.flatten, t.Lists p n := by
  rcases ReflTransGen.cases_tail (h.mem_walk.1 hn) with rfl | ⟨p, hp, hl⟩
  · exact absurd rfl hne
  · exact ⟨p, h.mem_walk.2 hp, hl⟩

/-- The folder of a node below another one is at that one or below it as well. -/
theorem owner_mem_walk (hn : n ∈ t.flatten) (hm : m ∈ t.walk n) (hne : n ≠ m) (hp : p ∈ t.flatten)
    (hl : t.Lists p m) : p ∈ t.walk n := by
  rcases ReflTransGen.cases_tail (h.mem_walk.1 hm) with rfl | ⟨q, hq, hql⟩
  · exact absurd rfl hne
  · have hin : q ∈ t.flatten := h.mem_walk.2 ((h.mem_walk.1 hn).trans hq)
    rw [h.owner_unique hin hp hql hl]
    exact h.mem_walk.2 hq

/-- A node that is taken out of its folder is in no folder of the tree any more, and all others stay. -/
theorem children_removed (hs : source ∈ t.flatten) (hu : t.removeChild source n = .ok u) (hp : p ∈ t.flatten) :
    u.children p = (t.children p).filter (· != n) := by
  obtain ⟨hl, rfl⟩ := removeChild_ok hu
  rw [children_setChildren (lt_of_lists hl)]
  split
  · next he => rw [he]
  · next hne =>
    refine (List.filter_eq_self.2 fun c hc => ?_).symm
    rw [bne_iff_ne]
    rintro rfl
    exact hne (h.owner_unique hs hp hl hc)

end Single

/-! When a move is refused. -/

theorem dropPlace_error {e : StructuralError} (he : t.dropPlace target = .error e) :
    e = .noParent (t.name target) := by
  unfold dropPlace at he
  split at he
  · contradiction
  · split at he
    · exact (Except.error.inj he).symm
    · contradiction

theorem removeChild_error {parent : NodeId} {e : StructuralError} (he : t.removeChild parent n = .error e) :
    e = .notAChild (t.name n) (t.name parent) := by
  unfold removeChild at he
  split at he
  · contradiction
  · exact (Except.error.inj he).symm

theorem move_error {e : StructuralError} (he : t.move n target = .error e) :
    e.kindName = "StructuralError" := by
  unfold move at he
  split at he
  · obtain rfl := Except.error.inj he
    rfl
  · split at he
    · obtain rfl := Except.error.inj he
      rfl
    · next source _ =>
      split at he
      · next hd =>
        obtain rfl := Except.error.inj he
        rw [dropPlace_error hd]
        rfl
      · split at he
        · obtain rfl := Except.error.inj he
          rfl
        · cases hu : t.removeChild source n with
          | ok u => simp [hu, Except.map] at he
          | error e' =>
            obtain rfl : e' = e := by simpa [hu, Except.map] using he
            rw [removeChild_error hu]
            rfl

theorem exists_dropPlace (h : t.Single) (ht : target ∈ t.flatten) (hroot : t.isFolder t.root) :
    ∃ r, t.dropPlace target = .ok r := by
  unfold dropPlace
  split
  · exact ⟨_, rfl⟩
  · next hleaf =>
    obtain ⟨p, hp, hl⟩ := h.exists_owner ht fun he => hleaf (he ▸ hroot)
    rw [h.findParent_eq hp hl]
    exact ⟨_, rfl⟩

/-- A move is not refused if its target is neither the node nor below it. -/
theorem exists_move (h : t.Single) (hn : n ∈ t.flatten) (ht : target ∈ t.flatten) (hroot : n ≠ t.root)
    (hne : n ≠ target) (hb : t.isFolder n → target ∉ t.walk n) : ∃ t', t.move n target = .ok t' := by
  obtain ⟨source, hs, hl⟩ := h.exists_owner hn hroot
  have hfolder : t.isFolder t.root := by
    rcases ReflTransGen.cases_head (h.mem_walk.1 hn) with he | ⟨c, hc, -⟩
    · exact absurd he.symm hroot
    · exact isFolder_of_lists hc
  obtain ⟨⟨destination, place⟩, hd⟩ := exists_dropPlace h ht hfolder
  have hbelow : t.isFolder n → destination ∉ t.walk n := fun hf hin => by
    rcases (dropPlace_ok hd).2 with rfl | ⟨-, hlist⟩
    · exact hb hf hin
    · exact hb hf (h.mem_walk.2 ((h.mem_walk.1 hin).tail hlist))
  have hcheck : ¬(n = target || (t.isFolder n && (t.walk n).contains destination)) = true := by
    simpa [hne] using hbelow
  have hremove : t.removeChild source n =
      .ok (t.setChildren source ((t.children source).filter (· != n))) :=
    if_pos (List.contains_iff_mem.2 hl)
  rw [move, if_neg hroot, h.findParent_eq hs hl]
  simp only [hd, if_neg hcheck, hremove]
  exact ⟨_, rfl⟩

theorem move_refused_iff (h : t.Single) (hn : n ∈ t.flatten) (ht : target ∈ t.flatten) :
    (∃ e, t.move n target = .error e) ↔ n = t.root ∨ n = target ∨ t.isFolder n ∧ target ∈ t.walk n := by
  constructor
  · rintro ⟨e, he⟩
    by_contra hnot
    obtain ⟨hroot, hne, hb⟩ : n ≠ t.root ∧ n ≠ target ∧ (t.isFolder n → target ∉ t.walk n) := by
      simpa only [not_or, not_and] using hnot
    obtain ⟨t', ht'⟩ := exists_move h hn ht hroot hne hb
    rw [he] at ht'
    contradiction
  · intro hwhy
    cases hm : t.move n target with
    | error e => exact ⟨e, rfl⟩
    | ok t' =>
      obtain ⟨source, destination, place, u, hroot, -, hd, hne, hb, -⟩ := move_cases hm
      rcases hwhy with he | he | ⟨hf, hin⟩
      · exact absurd he hroot
      · exact absurd he hne
      · rcases (dropPlace_ok hd).2 with rfl | ⟨hdest, hl⟩
        · exact absurd hin (hb hf)
        · exact absurd (h.owner_mem_walk hn hin hne hdest hl) (hb hf)

/-! The place. -/

theorem insertAt_length (before after : List NodeId) (n : NodeId) :
    insertAt (before ++ after) before.length n = before ++ n :: after := by
  rw [insertAt, List.take_left, List.drop_left]

/-- The place of a child, one less if a node in front of it is taken out, is the number of the children in front
of it without that node. -/
theorem place_eq {before after : List NodeId} {c : Prop} [Decidable c]
    (hnodup : (before ++ target :: after).Nodup) (hc : c ↔ n ∈ before ++ target :: after) :
    (if c ∧ (before ++ target :: after).idxOf n < (before ++ target :: after).idxOf target
      then (before ++ target :: after).idxOf target - 1
      else (before ++ target :: after).idxOf target) = (before.filter (· != n)).length := by
  obtain ⟨hbefore, -, hapart⟩ := List.nodup_append.1 hnodup
  have htarget : target ∉ before := fun hm => hapart target hm target List.mem_cons_self rfl
  rw [List.idxOf_append_of_notMem htarget, List.idxOf_cons_self, Nat.add_zero]
  by_cases hn : n ∈ before
  · have hlt : (before ++ target :: after).idxOf n < before.length := by
      rw [List.idxOf_append_of_mem hn]
      exact List.idxOf_lt_length_of_mem hn
    rw [if_pos ⟨hc.2 (List.mem_append_left _ hn), hlt⟩, ← hbefore.erase_eq_filter, List.length_erase_of_mem hn]
  · have hge : ¬(before ++ target :: after).idxOf n < before.length := by
      rw [List.idxOf_append_of_notMem hn]
      omega
    have hkeep : before.filter (· != n) = before := List.filter_eq_self.2 fun m hm => by
      rw [bne_iff_ne]
      rintro rfl
      exact hn hm
    rw [if_neg fun hboth => hge hboth.2, hkeep]

theorem droppedInto_of_setChildren (h : t.Single) {folder : NodeId} {before after : List NodeId}
    (hs : source ∈ t.flatten) (hu : t.removeChild source n = .ok u) (hf : folder ∈ t.flatten)
    (hrest : (t.children folder).filter (· != n) = before ++ after) :
    DroppedInto t (u.setChildren folder (before ++ n :: after)) n folder before after := by
  obtain ⟨hl, hset⟩ := removeChild_ok hu
  have hsource := lt_of_lists hl
  have hlt : folder < u.nodes.length := by
    rw [hset, length_setChildren]
    exact h.toGrounded.lt_of_mem_flatten hf
  refine ⟨hf, hrest, ?_, fun p hp hne => ?_, fun p hp => ?_, fun m => ?_⟩
  · rw [children_setChildren hlt, if_pos rfl]
  · rw [children_setChildren hlt, if_neg hne, h.children_removed hs hu hp]
  · have hne : p ≠ folder := fun he => hp (he ▸ hf)
    have hne' : p ≠ source := fun he => hp (he ▸ hs)
    rw [children_setChildren hlt, if_neg hne, hset, children_setChildren hsource, if_neg hne']
  · rw [name_setChildren _ hlt, hset, name_setChildren _ hsource]

/-- A node that is dropped on a folder comes to its end, and one that is dropped on a macro in front of that. -/
theorem move_droppedInto (h : t.Single) (ht : target ∈ t.flatten) (hm : t.move n target = .ok t') :
    (t.isFolder target → DroppedInto t t' n target ((t.children target).filter (· != n)) []) ∧
      (t.isFolder target = false → ∃ folder before after, DroppedInto t t' n folder before (target :: after)) := by
  obtain ⟨source, destination, place, u, -, hs, hd, hne, -, hu, rfl⟩ := move_cases hm
  obtain ⟨hin, hl⟩ := findParent_some hs
  unfold dropPlace at hd
  split at hd
  · next hfolder =>
    obtain ⟨rfl, rfl⟩ := Prod.mk.inj (Except.ok.inj hd)
    refine ⟨fun _ => ?_, fun hleaf => absurd hfolder (by simp [hleaf])⟩
    dsimp only
    rw [h.children_removed hin hu ht]
    exact droppedInto_of_setChildren h hin hu ht (by rw [List.append_nil])
  · next hleaf =>
    split at hd
    · contradiction
    · next d hparent =>
      obtain ⟨rfl, rfl⟩ := Prod.mk.inj (Except.ok.inj hd)
      obtain ⟨hdest, hlist⟩ := findParent_some hparent
      refine ⟨fun hfolder => absurd hfolder hleaf, fun _ => ?_⟩
      obtain ⟨before, after, hsplit⟩ := List.append_of_mem hlist
      have hnodup := h.nodup_children h.nodup hdest
      have hrest : (t.children d).filter (· != n) =
          before.filter (· != n) ++ target :: after.filter (· != n) := by
        rw [hsplit, List.filter_append, List.filter_cons_of_pos (by simpa using Ne.symm hne)]
      have hsame : d = source ↔ n ∈ t.children d :=
        ⟨fun he => he ▸ hl, fun hc => h.owner_unique hin hdest hl hc⟩
      have hplace : (if d = source && (t.children source).idxOf n < (t.children d).idxOf target
          then (t.children d).idxOf target - 1 else (t.children d).idxOf target) =
            (before.filter (· != n)).length := by
        rw [hsplit] at hnodup hsame
        rw [← place_eq hnodup hsame]
        by_cases he : d = source
        · subst he
          simp [hsplit]
        · simp [he, hsplit]
      refine ⟨d, before.filter (· != n), after.filter (· != n), ?_⟩
      dsimp only
      rw [hplace, h.children_removed hin hu hdest, hrest, insertAt_length]
      exact droppedInto_of_setChildren h hin hu hdest hrest

/-- A move inside the tree is refused just if it would put the root or put a node at or below itself. Else the node
comes to lie where it was dropped, at the end of a folder or right before a macro, and all other children stay
as they are. -/
theorem move_drops (h : t.Single) (hn : n ∈ t.flatten) (ht : target ∈ t.flatten) :
    ((∃ e, t.move n target = .error e) ↔ n = t.root ∨ n = target ∨ t.isFolder n ∧ target ∈ t.walk n) ∧
      (∀ e, t.move n target = .error e → e.kindName = "StructuralError") ∧
      ∀ t', t.move n target = .ok t' →
        (t.isFolder target → DroppedInto t t' n target ((t.children target).filter (· != n)) []) ∧
          (t.isFolder target = false →
            ∃ folder before after, DroppedInto t t' n folder before (target :: after)) :=
  ⟨move_refused_iff h hn ht, fun _ => move_error, fun _ => move_droppedInto h ht⟩

/-- A folder with three macros, and another folder. -/
def shelf : List Edit :=
  [.newFolder none (.text "A"), .newLeaf (some 1) (.text "B") (.text "") .native,
    .newLeaf (some 1) (.text "C") (.text "") .native, .newLeaf (some 1) (.text "D") (.text "") .native,
    .newFolder none (.text "E")]

theorem shelf_drops : (Tree.empty.edit shelf).Single ∧
    (∃ t', (Tree.empty.edit shelf).move 2 4 = .ok t' ∧ t'.children 1 = [3, 2, 4] ∧
      ∃ folder before after, DroppedInto (Tree.empty.edit shelf) t' 2 folder before (4 :: after)) ∧
    (∃ t', (Tree.empty.edit shelf).move 3 0 = .ok t' ∧ t'.children 0 = [1, 5, 3] ∧
      DroppedInto (Tree.empty.edit shelf) t' 3 0 [1, 5] []) ∧
    ∃ e, (Tree.empty.edit shelf).move 1 3 = .error e := by
  have hx : Tree.empty.KnownAll shelf := by decide +kernel
  have h : (Tree.empty.edit shelf).Single := (single_ofName "/").edit hx
  have hdown := perform_apply (t := Tree.empty.edit shelf) (x := .move 2 4) (by decide +kernel)
  have hend := perform_apply (t := Tree.empty.edit shelf) (x := .move 3 0) (by decide +kernel)
  refine ⟨h, ⟨_, hdown, by decide +kernel, ?_⟩, ⟨_, hend, by decide +kernel, ?_⟩, ?_⟩
  · exact ((move_drops h (by decide +kernel) (by decide +kernel)).2.2 _ hdown).2 (by decide +kernel)
  · have hkept : ((Tree.empty.edit shelf).children 0).filter (· != 3) = [1, 5] := by decide +kernel
    rw [← hkept]
    exact ((move_drops h (by decide +kernel) (by decide +kernel)).2.2 _ hend).1 (by decide +kernel)
  · exact (move_drops h (by decide +kernel) (by decide +kernel)).1.2 (.inr (.inr (by decide +kernel)))

end Macros.Tree
