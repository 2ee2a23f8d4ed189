import Macros.Proofs.Tree.FreeName
import Macros.Proofs.Tree.Single

/-!
Names tell the nodes of the tree apart, and edits keep that up but for one case. A free name is looked
for before it is trimmed, so a rename to a blank name finds ` (1)`, and what it gives is `(1)`, which
may be taken.
-/

namespace Macros

namespace Tree

variable {t t' : Tree} {m n : NodeId}

/-- No two nodes of the tree have the same name. -/
def NamesDistinct (t : Tree) : Prop :=
  ∀ m ∈ t.flatten, ∀ n ∈ t.flatten, m ≠ n → (t.name m).same (t.name n) = false

instance (t : Tree) : Decidable t.NamesDistinct :=
  inferInstanceAs (Decidable (∀ m ∈ t.flatten, ∀ n ∈ t.flatten, _))

/-- Another node of the tree has the name. -/
def TakenBeside (t : Tree) (n : NodeId) (name : String) : Prop :=
  ∃ m ∈ t.flatten, m ≠ n ∧ t.name m = .text name

end Tree

/-- A node is renamed to a blank name when the empty name is taken, and so is the first variant of it
that is free, once that is trimmed. -/
def Edit.Collides (t : Tree) : Edit → Prop
  | rename n (.text name) => Text.trim name = "" ∧ (∃ t', t.rename n (.text name) = .ok t') ∧
      t.TakenBeside n "" ∧ ∃ k, 1 ≤ k ∧
        (∀ j, 1 ≤ j → j < k → t.TakenBeside n (" (" ++ toString j ++ ")")) ∧
        ¬t.TakenBeside n (" (" ++ toString k ++ ")") ∧ t.TakenBeside n ("(" ++ toString k ++ ")")
  | _ => False

namespace Tree

variable {t t' : Tree} {m n : NodeId}

theorem mem_texts {names : List Value} {s : String} : s ∈ FreeName.texts names ↔ .text s ∈ names := by
  rw [FreeName.texts, List.mem_filterMap]
  constructor
  · rintro ⟨v, hv, hs⟩
    split at hs
    · rwa [← Option.some.inj hs]
    · contradiction
  · exact fun h => ⟨_, h, rfl⟩

theorem mem_taken {s : String} :
    s ∈ FreeName.texts ((t.flatten.filter (some · != some n)).map t.name) ↔ t.TakenBeside n s := by
  rw [mem_texts, List.mem_map]
  simp [TakenBeside, and_assoc]

theorem uniqueName_ok {name : Value} {s : String} (h : t.uniqueName name (some n) = .ok s) :
    ∃ raw free, name = .text raw ∧ s = Text.trim free ∧ FreeName.firstFree
      (FreeName.texts ((t.flatten.filter (some · != some n)).map t.name)) (Text.trim raw) =
        .ok free := by
  unfold uniqueName at h
  split at h
  · contradiction
  · next taken raw hc =>
    have ht : taken = (t.flatten.filter (some · != some n)).map t.name := by
      unfold FreeName.comparable at hc
      split at hc
      · exact (Except.ok.inj hc).symm
      · contradiction
    split at h
    · contradiction
    · next free hf => exact ⟨raw, free, rfl, (Except.ok.inj h).symm, ht ▸ hf⟩
  · contradiction

theorem numbered_empty (k : Nat) :
    FreeName.numbered "" (toString k) = " (" ++ toString k ++ ")" := by
  simp [FreeName.numbered]

/-- The name that a rename gives is taken only in that one case. -/
theorem takenBeside_iff {name : Value} {s : String} (hs : t.uniqueName name (some n) = .ok s)
    (hr : t.rename n name = .ok t') : t.TakenBeside n s ↔ (Edit.rename n name).Collides t := by
  obtain ⟨raw, free, rfl, rfl, hf⟩ := uniqueName_ok hs
  have htrim := Text.trimmed_trim raw
  rcases FreeName.firstFree_ok hf with ⟨hfree, rfl⟩ | ⟨k, hk⟩
  · rw [htrim.trim_eq]
    refine ⟨fun h => absurd (mem_taken.2 h) hfree, fun h => ?_⟩
    obtain ⟨hblank, -, hempty, -⟩ := h
    rw [hblank] at hfree
    exact absurd (mem_taken.2 hempty) hfree
  · by_cases hblank : Text.trim raw = ""
    · have hbase : FreeName.base (Text.trim raw) = ("", 1) := by rw [hblank]; rfl
      obtain ⟨hstart, rfl, htaken, hfree, hpassed⟩ := hk
      simp only [hbase, mem_taken, numbered_empty] at hstart htaken hfree hpassed ⊢
      rw [← numbered_empty, FreeName.trim_numbered_empty]
      rw [hblank] at htaken
      refine ⟨fun h => ⟨hblank, ⟨t', hr⟩, htaken, k, hstart, hpassed, hfree, h⟩, fun h => ?_⟩
      -- both are the least number whose variant is free
      obtain ⟨-, -, -, i, hi, hbelow, hnot, h⟩ := h
      rcases Nat.lt_trichotomy i k with hlt | rfl | hlt
      · exact absurd (hpassed i hi hlt) hnot
      · exact h
      · exact absurd (hbelow k hstart hlt) hfree
    · have hfree : Text.trim free = free := by
        rw [hk.eq]
        exact (FreeName.trimmed_numbered htrim hblank k).trim_eq
      rw [hfree]
      exact ⟨fun h => absurd (mem_taken.2 h) hk.free, fun h => absurd h.1 hblank⟩

/-- After a rename the names differ just when the new name was free. -/
theorem Renamed.distinct_iff {s : String} (h : Renamed t t' n s) (hd : t.NamesDistinct) :
    t'.NamesDistinct ↔ ¬t.TakenBeside n s := by
  constructor
  · rintro hd' ⟨m, hm, hne, hs⟩
    have := hd' m (h.flatten ▸ hm) n (h.flatten ▸ h.mem) hne
    rw [h.name, h.others m hne, hs] at this
    simp [Value.same] at this
  · intro hfree m hm k hk hne
    rw [h.flatten] at hm hk
    have hother : ∀ j ∈ t.flatten, j ≠ n → t.name j ≠ .text s := fun j hj hjn hs =>
      hfree ⟨j, hj, hjn, hs⟩
    by_cases hmn : m = n
    · have hkn : k ≠ n := fun he => hne (hmn.trans he.symm)
      rw [hmn, h.name, h.others k hkn]
      exact Bool.eq_false_iff.2 (mt (Value.text_same s _).1 (hother k hk hkn))
    · rw [h.others m hmn]
      by_cases hkn : k = n
      · rw [hkn, h.name]
        exact Bool.eq_false_iff.2 (mt (Value.same_text s _).1 (hother m hm hmn))
      · rw [h.others k hkn]
        exact hd m hm k hk hne

theorem Edited.distinct (h : Edited t t') (hd : t.NamesDistinct) : t'.NamesDistinct := by
  cases h with
  | loses hf hn =>
    intro m hm k hk hne
    rw [hn m hm, hn k hk]
    exact hd m (hf.subset hm) k (hf.subset hk) hne
  | gains ns hf hn hnew =>
    have hmixed : ∀ m ∈ t.flatten, ∀ k ∈ ns, t'.Apart k m := fun m hm k hk =>
      apart_of_not_namedAlike (hnew.taken k hk m hm) (hnew.members k hk) (hn m hm).2
    intro m hm k hk hne
    rcases List.mem_append.1 (hf.mem_iff.1 hm) with hm | hm <;>
      rcases List.mem_append.1 (hf.mem_iff.1 hk) with hk | hk
    · rw [(hn m hm).1, (hn k hk).1]
      exact hd m hm k hk hne
    · exact (hmixed m hm k hk).2
    · exact (hmixed k hk m hm).1
    · have hnew' : ns.Pairwise t'.Apart := hnew.new.imp_of_mem fun ha hb h =>
        (apart_of_not_namedAlike h (hnew.members _ hb) (hnew.members _ ha)).symm
      have : Std.Symm t'.Apart := ⟨fun _ _ h => h.symm⟩
      exact (hnew'.forall hm hk hne).1

theorem Collides.isRename {x : Edit} (h : x.Collides t) : ∃ n name, x = .rename n name := by
  cases x with
  | rename n name => exact ⟨n, name, rfl⟩
  | _ => exact h.elim

theorem Collides.performs {x : Edit} (h : x.Collides t) : ∃ t', x.perform t = .ok t' := by
  obtain ⟨n, name, rfl⟩ := Collides.isRename h
  cases name with
  | text raw => exact h.2.1
  | _ => exact h.elim

theorem apply_distinct_iff (h : t.Single) (hd : t.NamesDistinct) {x : Edit} (hx : x.Known t) :
    (x.apply t).NamesDistinct ↔ ¬x.Collides t := by
  unfold Edit.apply
  split
  · next t' hp =>
    obtain ⟨-, ⟨hne, he⟩ | ⟨n, name, s, rfl, hs, hr⟩⟩ := perform_edited h.toGrounded h.nodup hx hp
    · refine iff_of_true (he.distinct hd) fun hc => ?_
      obtain ⟨n, name, rfl⟩ := Collides.isRename hc
      exact hne n name rfl
    · rw [hr.distinct_iff hd, takenBeside_iff hs hp]
  · next e he =>
    refine iff_of_true hd fun hc => ?_
    obtain ⟨t', ht⟩ := Collides.performs hc
    rw [he] at ht
    contradiction

/-- While edits go on, names differ at every moment just when no edit collides at its own. -/
theorem edits_distinct_iff {xs : List Edit} (h : t.Single) (hd : t.NamesDistinct)
    (hx : t.KnownAll xs) : (∀ ys, ys <+: xs → (t.edit ys).NamesDistinct) ↔
      ∀ ys x, ys ++ [x] <+: xs → ¬x.Collides (t.edit ys) := by
  induction xs generalizing t with
  | nil =>
    refine iff_of_true (fun ys hy => ?_) fun ys x hy => ?_
    · rw [List.prefix_nil.1 hy]
      exact hd
    · simp at hy
  | cons x xs ih =>
    have hstep := apply_distinct_iff h hd hx.1
    constructor
    · intro hall ys y hy
      have hnext : (x.apply t).NamesDistinct := hall [x] (by simp)
      cases ys with
      | nil =>
        obtain rfl : y = x := by simpa using hy
        exact hstep.1 hnext
      | cons z ys =>
        obtain ⟨rfl, hrest⟩ := List.cons_prefix_cons.1 hy
        refine (ih (h.apply hx.1) hnext hx.2).1 (fun ws hw => ?_) ys y hrest
        exact hall (z :: ws) (List.cons_prefix_cons.2 ⟨rfl, hw⟩)
    · intro hnone ys hy
      cases ys with
      | nil => exact hd
      | cons z ys =>
        obtain ⟨rfl, hrest⟩ := List.cons_prefix_cons.1 hy
        have hnext := hstep.2 (hnone [] z (by simp))
        refine (ih (h.apply hx.1) hnext hx.2).2 (fun ws w hw => ?_) ys hrest
        exact hnone (z :: ws) w (List.cons_prefix_cons.2 ⟨rfl, hw⟩)

/-- Names that are taken, a node that is out of the tree for a while, and names given up meanwhile. -/
def reused : List Edit :=
  [.newFolder none (.text "A"), .newLeaf (some 1) (.text " A ") (.text "/echo") .native,
    .newLeaf none (.text "A (1)") (.text "") .lua, .rename 3 (.text "A (2)"), .move 3 2,
    .removeChild 0 1, .rename 0 (.text "A"), .addChild 0 1 none, .rename 0 (.text "/"),
    .addChild 0 1 none]

theorem reused_distinct : Tree.empty.KnownAll reused ∧
    ∀ ys, ys <+: reused → (Tree.empty.edit ys).NamesDistinct := by
  have hx : Tree.empty.KnownAll reused := by decide +kernel
  refine ⟨hx, (edits_distinct_iff (single_ofName "/") (by decide) hx).2 fun ys x hy hc => ?_⟩
  have hmem : x ∈ reused := hy.subset (by simp)
  simp only [reused, List.mem_cons, List.not_mem_nil, or_false] at hmem
  rcases hmem with rfl | rfl | rfl | rfl | rfl | rfl | rfl | rfl | rfl | rfl <;>
    first | exact hc | exact absurd hc.1 (by decide)

/-- The last of these gives the third macro the name `(1)`, which the second one has. -/
def blank : List Edit :=
  [.newLeaf none (.text "") (.text "") .native, .newLeaf none (.text "") (.text "") .native,
    .newLeaf none (.text "X") (.text "") .native, .rename 3 (.text " ")]

theorem blank_not_distinct :
    Tree.empty.KnownAll blank ∧ ¬(Tree.empty.edit blank).NamesDistinct := by
  decide +kernel

end Tree

end Macros
