import Macros.Tree.Edit

/-!
When two nodes count as named alike. Names that can be members of a set are compared the same way from
both sides, so a check of the new names against those in use keeps all of them apart.
-/

namespace Macros

theorem Binary64.eq_comm (x y : Binary64) : x.eq y = y.eq x := by
  cases x <;> cases y <;> simp [Binary64.eq, BEq.comm, Eq.comm]

namespace Value

mutual

theorem same_comm : (v w : Value) → v.isMember → w.isMember → v.same w = w.same v
  | tuple xs, w, hv, hw => by
    cases w with
    | tuple ys => exact sameAll_comm xs ys hv hw
    | _ => simp [same, toInt?]
  | list _, _, hv, _ | record _, _, hv, _ => by simp [isMember] at hv
  | null, w, _, _ | flag _, w, _, _ | int _, w, _, _ | text _, w, _, _ => by
    cases w <;> simp [same, toInt?, BEq.comm]
  | number x, w, _, _ => by cases w <;> simp [same, toInt?, Binary64.eq_comm x]

theorem sameAll_comm : (xs ys : List Value) → areMembers xs → areMembers ys →
    sameAll xs ys = sameAll ys xs
  | [], ys, _, _ => by cases ys <;> simp [sameAll]
  | _ :: _, [], _, _ => by simp [sameAll]
  | x :: xs, y :: ys, hx, hy => by
    simp only [areMembers, Bool.and_eq_true] at hx hy
    simp only [sameAll]
    rw [same_comm x y hx.1 hy.1, sameAll_comm xs ys hx.2 hy.2]

end

@[simp] theorem text_same (s : String) (v : Value) : (text s).same v = true ↔ v = text s := by
  cases v with
  | text => simpa [same] using Eq.comm
  | _ => simp [same, toInt?]

@[simp] theorem same_text (s : String) (v : Value) : v.same (text s) = true ↔ v = text s := by
  cases v <;> simp [same, toInt?]

end Value

namespace Tree

variable {t t' : Tree} {m n : NodeId}

/-- The names of two nodes differ, from whichever side they are compared. -/
def Apart (t : Tree) (m n : NodeId) : Prop :=
  (t.name m).same (t.name n) = false ∧ (t.name n).same (t.name m) = false

theorem Apart.symm (h : t.Apart m n) : t.Apart n m := And.symm h

theorem ne_of_not_namedAlike (h : t.namedAlike n m = false) : n ≠ m := by
  simp only [namedAlike, Bool.or_eq_false_iff, decide_eq_false_iff_not] at h
  exact h.1

theorem apart_of_not_namedAlike (h : t.namedAlike n m = false) (hn : (t.name n).isMember)
    (hm : (t.name m).isMember) : t.Apart n m := by
  simp only [namedAlike, Bool.or_eq_false_iff] at h
  exact ⟨h.2, (Value.same_comm _ _ hm hn).trans h.2⟩

/-- New nodes pass the check: each can be told by its name from those before it. -/
structure Fresh (t : Tree) (taken ns : List NodeId) : Prop where
  members : ∀ n ∈ ns, (t.name n).isMember
  taken : ∀ n ∈ ns, ∀ m ∈ taken, t.namedAlike n m = false
  new : ns.Pairwise fun m n => t.namedAlike n m = false

theorem checkNames_ok {taken ns : List NodeId} (h : t.checkNames taken ns = .ok ()) :
    t.Fresh taken ns := by
  induction ns generalizing taken with
  | nil => exact ⟨by simp, by simp, .nil⟩
  | cons n ns ih =>
    unfold checkNames at h
    split at h
    · contradiction
    · next hm =>
      split at h
      · contradiction
      · next ha =>
        obtain ⟨h1, h2, h3⟩ := ih h
        simp only [List.any_eq_true, not_exists, not_and, Bool.not_eq_true] at ha
        refine ⟨?_, ?_, ?_⟩
        · exact List.forall_mem_cons.2 ⟨by simpa using hm, h1⟩
        · exact List.forall_mem_cons.2 ⟨ha, fun k hk m hm => h2 k hk m (by simp [hm])⟩
        · exact .cons (fun k hk => h2 k hk n (by simp)) h3

end Tree

end Macros
