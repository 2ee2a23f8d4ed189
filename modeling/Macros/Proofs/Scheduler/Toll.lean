import Macros.Proofs.Scheduler.Sequence
import Mathlib.Algebra.BigOperators.Intervals
import Mathlib.Algebra.Group.Action.Defs
import Mathlib.Tactic.Ring

/-!
How much a run can do at most before it ends. A line counts for all that may be handed over until its
macro is past it: a loop line for every round that it still goes back for, a line that starts a macro for
the whole of that macro. Whatever a line comes to, less is left afterwards.
-/

namespace Macros

open Session

variable {σ τ : Type}

/-- Every loop line has a count. -/
def Counted (is : List Instruction) : Prop := ∀ i ∈ is, i.command = "loop" → (loopCount i).isSome

instance (is : List Instruction) : Decidable (Counted is) :=
  inferInstanceAs (Decidable (∀ i ∈ is, i.command = "loop" → (loopCount i).isSome))

/-- The macro is native, and every loop line has a count. -/
def Work.Counted : Work τ → Prop
  | .native w => Macros.Counted w.instructions
  | .script _ => False

instance : (w : Work τ) → Decidable w.Counted
  | .native w => inferInstanceAs (Decidable (Macros.Counted w.instructions))
  | .script _ => isFalse id

theorem Work.Counted.native {w : Work τ} (h : w.Counted) :
    ∃ v, w = .native v ∧ Macros.Counted v.instructions := by
  cases w with
  | native v => exact ⟨v, rfl, h⟩
  | script r => exact absurd h id

namespace Session

/-- Every loop of every macro of the tree has a count. -/
def Bounded (s : Session σ τ) : Prop := ∀ n ∈ s.tree.leaves, Counted ((s.built n).getD [])

instance (s : Session σ τ) : Decidable s.Bounded :=
  inferInstanceAs (Decidable (∀ n ∈ s.tree.leaves, Counted ((s.built n).getD [])))

variable {s : Session σ τ} {room k : Nat} {w : NativeWork} {i : Instruction} {is : List Instruction}

/-- How many instructions the first lines of a macro come to. -/
def span (s : Session σ τ) (room : Nat) (is : List Instruction) (k : Nat) : Nat :=
  (s.upTo room is k).length

/-- What a line that is still to come counts for. -/
def toll (s : Session σ τ) (room : Nat) (w : NativeWork) (k : Nat) : Nat :=
  match w.instructions[k]? with
  | none => 0
  | some i =>
    if i.command = "loop" then
      1 + (remaining w k ((loopCount i).getD 0)).toNat * (s.span room w.instructions k + 1)
    else if i.command = "runmacro" then 1 + (s.call room i.args).length
    else 1

/-- How much a macro has still to do. -/
def left (s : Session σ τ) (room : Nat) (w : NativeWork) : Nat :=
  ∑ k ∈ Finset.Ico w.cursor w.instructions.length, s.toll room w k

theorem remaining_start (is : List Instruction) (k : Nat) (n : Int) : remaining (.start is) k n = n := rfl

theorem span_succ (hi : is[k]? = some i) :
    s.span room is (k + 1) = s.span room is k + s.toll room (.start is) k := by
  have hi' : (NativeWork.start is).instructions[k]? = some i := hi
  unfold span toll
  rw [upTo_succ s room hi, hi', Instruction.after]
  dsimp only
  split
  · rw [remaining_start]
    simp only [List.length_flatten, List.map_replicate, List.sum_replicate, List.length_append,
      List.length_singleton, smul_eq_mul]
    show _ = _ + (1 + _ * ((s.upTo room is k).length + 1))
    ring
  · split
    · simp [Nat.add_comm]
    · simp

theorem toll_pos (hi : w.instructions[k]? = some i) : 0 < s.toll room w k := by
  unfold toll
  rw [hi]
  dsimp only
  split
  · omega
  · split <;> omega

/-- A counter that has been used leaves less to do. -/
theorem toll_le (h : w.Sound) (hc : Counted w.instructions) :
    s.toll room w k ≤ s.toll room (.start w.instructions) k := by
  unfold toll
  split
  · exact Nat.zero_le _
  · next i hi =>
    have hi' : (NativeWork.start w.instructions).instructions[k]? = some i := hi
    rw [hi']
    dsimp only
    split
    · next hl =>
      obtain ⟨n, hn⟩ := Option.isSome_iff_exists.1 (hc i (List.mem_of_getElem? hi) hl)
      rw [hn, Option.getD_some, remaining_start]
      exact Nat.add_le_add_left (Nat.mul_le_mul_right _ (Int.toNat_le_toNat (remaining_le h hi hn))) 1
    · exact Nat.le_refl _

theorem sum_toll_le (s : Session σ τ) (room : Nat) (h : w.Sound) (hc : Counted w.instructions)
    (hk : k ≤ w.instructions.length) :
    ∑ j ∈ Finset.range k, s.toll room w j ≤ s.span room w.instructions k := by
  induction k with
  | zero => simp
  | succ k ih =>
    rw [Finset.sum_range_succ, span_succ (List.getElem?_eq_getElem hk)]
    exact Nat.add_le_add (ih (Nat.le_of_lt hk)) (toll_le h hc)

theorem left_start (hc : Counted is) : s.left room (.start is) ≤ s.span room is is.length := by
  have hw : (NativeWork.start is).Sound := (Work.Fresh.native (τ := τ) is).sound
  have h := sum_toll_le s room (k := is.length) hw hc (Nat.le_refl _)
  rwa [Finset.range_eq_Ico] at h

theorem left_next (hk : w.cursor < w.instructions.length) :
    s.left room w = s.toll room w w.cursor + s.left room w.next :=
  Finset.sum_eq_sum_Ico_succ_bot hk _

/-! Passing a loop line changes only its own counter. -/

theorem lookup_dropCounter (cs : List (Nat × Int)) {j k : Nat} (h : j ≠ k) :
    (dropCounter cs k).lookup j = cs.lookup j := by
  have hb : (j == k) = false := by simpa using h
  unfold dropCounter
  induction cs with
  | nil => rfl
  | cons p cs ih =>
    obtain ⟨m, v⟩ := p
    by_cases hm : m = k
    · subst hm
      simp [List.lookup_cons, ih, hb]
    · simp [List.lookup_cons, ih, hm]

theorem lookup_setCounter (cs : List (Nat × Int)) (v : Int) {j k : Nat} (h : j ≠ k) :
    (setCounter cs k v).lookup j = cs.lookup j := by
  have hb : (j == k) = false := by simpa using h
  simp [setCounter, List.lookup_cons, hb, lookup_dropCounter cs h]

theorem toll_congr {w' : NativeWork} (hi : w'.instructions = w.instructions)
    (hl : w'.counters.lookup k = w.counters.lookup k) : s.toll room w' k = s.toll room w k := by
  unfold toll remaining
  rw [hi, hl]

theorem toll_loop (hi : w.instructions[k]? = some i) (hl : i.command = "loop") {n : Int}
    (hn : loopCount i = some n) :
    s.toll room w k = 1 + (remaining w k n).toNat * (s.span room w.instructions k + 1) := by
  unfold toll
  rw [hi]
  simp [hl, hn]

theorem left_congr {w' : NativeWork} (hk : w'.cursor = w.cursor) (hi : w'.instructions = w.instructions)
    (hl : ∀ j, w.cursor ≤ j → w'.counters.lookup j = w.counters.lookup j) :
    s.left room w' = s.left room w := by
  unfold left
  rw [hk, hi]
  exact Finset.sum_congr rfl fun j hj => toll_congr hi (hl j (Finset.mem_Ico.1 hj).1)

/-- The lines before one, the line itself, and those after it. -/
theorem left_split (h0 : w.cursor = 0) (hk : k < w.instructions.length) :
    s.left room w = (∑ j ∈ Finset.range k, s.toll room w j) + s.toll room w k +
      s.left room { w with cursor := k + 1 } := by
  unfold left
  rw [h0, ← Finset.sum_range_succ, Finset.range_eq_Ico]
  exact (Finset.sum_Ico_consecutive _ (Nat.zero_le _) hk).symm

/-- A loop line goes back: one round fewer remains, and a round is no longer than the lines before the loop
line, with all that they can start. -/
theorem left_again (s : Session σ τ) (room : Nat) {v : NativeWork} (hv : v.Sound)
    (hc : Counted v.instructions) (h0 : v.cursor = 0) (hi : v.instructions[k]? = some i)
    (hl : i.command = "loop") {n : Int} (hn : loopCount i = some n) {r : Nat} (hr : remaining v k n = r) :
    s.left room v <
      1 + (r + 1) * (s.span room v.instructions k + 1) + s.left room { v with cursor := k + 1 } := by
  have hk : k < v.instructions.length := (List.getElem?_eq_some_iff.1 hi).1
  have h1 := sum_toll_le s room hv hc (Nat.le_of_lt hk)
  rw [left_split h0 hk, toll_loop hi hl hn, hr, Int.toNat_natCast, Nat.succ_mul]
  omega

/-- A loop line that is passed leaves less to do, also if it goes back. -/
theorem left_passLoop (h : w.Sound) (hc : Counted w.instructions)
    (hi : w.instructions[w.cursor]? = some i) (hl : i.command = "loop") :
    s.left room (passLoop w.next w.cursor (loopCount i)) < s.left room w := by
  obtain ⟨n, hn⟩ := Option.isSome_iff_exists.1 (hc i (List.mem_of_getElem? hi) hl)
  have hk : w.cursor < w.instructions.length := (List.getElem?_eq_some_iff.1 hi).1
  have hs : (passLoop w.next w.cursor (some n)).Sound :=
    NativeWork.Sound.passLoop (h.goTo hk) ⟨i, hi, hl, hn⟩
  rw [hn, left_next hk, toll_loop hi hl hn]
  by_cases hr : 0 < remaining w w.cursor n
  · obtain ⟨r, hw⟩ : ∃ r : Nat, remaining w w.cursor n = r + 1 :=
      ⟨(remaining w w.cursor n - 1).toNat, by omega⟩
    rw [passLoop_again (w := w.next) hr] at hs ⊢
    have hv : remaining w.next w.cursor n - 1 = r := by
      rw [show remaining w.next w.cursor n = r + 1 from hw, Int.add_sub_cancel]
    have h1 := left_again s room hs hc rfl hi hl hn (r := r)
      (by simp [remaining, setCounter, ← hv])
    rw [hw, show ((r : Int) + 1).toNat = r + 1 from rfl]
    refine Nat.lt_of_lt_of_eq h1 (congrArg _ (left_congr rfl rfl fun j hj => ?_))
    exact lookup_setCounter _ _ (Nat.ne_of_gt hj)
  · have h1 : s.left room { w.next with counters := dropCounter w.next.counters w.cursor } =
        s.left room w.next := left_congr rfl rfl fun j hj => lookup_dropCounter _ (Nat.ne_of_gt hj)
    rw [passLoop_done (w := w.next) hr, h1]
    omega

/-! Frames. -/

/-- What a frame counts for: taking it off, and two for every line, so that a macro can be put on. -/
def weight (s : Session σ τ) (room : Nat) (f : Frame τ) : Nat :=
  match f.work with
  | .native w => 2 * s.left room w + 1
  | .script _ => 1

/-- What the frames count for, the outermost first, where there is room for so many. -/
def burden (s : Session σ τ) : Nat → List (Frame τ) → Nat
  | _, [] => 0
  | room, f :: fs => s.weight (room - 1) f + s.burden (room - 1) fs

theorem burden_append (s : Session σ τ) (room : Nat) (fs gs : List (Frame τ)) :
    s.burden room (fs ++ gs) = s.burden room fs + s.burden (room - fs.length) gs := by
  induction fs generalizing room with
  | nil => simp [burden]
  | cons f fs ih =>
    rw [List.cons_append, burden, burden, ih, List.length_cons, Nat.sub_sub, Nat.add_comm 1 fs.length,
      Nat.add_assoc]

theorem burden_concat (s : Session σ τ) (room : Nat) (fs : List (Frame τ)) (f : Frame τ) :
    s.burden room (fs ++ [f]) = s.burden room fs + s.weight (room - (fs.length + 1)) f := by
  rw [burden_append, burden, burden, Nat.sub_sub, Nat.add_zero]

theorem weight_doing (s : Session σ τ) (room : Nat) (f : Frame τ) (w : NativeWork) :
    s.weight room (f.doing w) = 2 * s.left room w + 1 := rfl

/-- What one advance can make of the frames, of which the last is the innermost. -/
inductive Next (s : Session σ τ) (base : List (Frame τ)) (f : Frame τ) (w : NativeWork) :
    List (Frame τ) → Prop
  | ended : Next s base f w base
  | cleared : Next s base f w []
  | moved (g : Frame τ) (v : NativeWork) (hp : g.pauseAtLoop → f.pauseAtLoop)
    (hi : v.instructions = w.instructions)
    (hl : s.left (Limits.maxFrameDepth - (base.length + 1)) v <
      s.left (Limits.maxFrameDepth - (base.length + 1)) w) :
    Next s base f w (base ++ [g.doing v])
  | opened (g : Frame τ) (i : Instruction) (n : NodeId) (js : List Instruction)
    (hp : g.pauseAtLoop = false) (hi : w.instructions[w.cursor]? = some i)
    (hm : i.command = "runmacro") (hn : s.tree.findLeaves i.args = [n]) (hb : s.built n = some js)
    (hd : base.length + 1 < Limits.maxFrameDepth) :
    Next s base f w (base ++ [f.doing w.next] ++ [g.doing (.start js)])

variable {base fs : List (Frame τ)} {f : Frame τ}

/-- A macro that a line starts has no more to do than the line counted for. -/
theorem left_opened (room : Nat) {n : NodeId} {js : List Instruction} (hi : w.instructions[k]? = some i)
    (hm : i.command = "runmacro") (hn : s.tree.findLeaves i.args = [n]) (hb : s.built n = some js)
    (hc : Counted js) : s.left room (.start js) < s.toll (room + 1) w k := by
  have hcall : s.call (room + 1) i.args = s.upTo room js js.length := by
    rw [← execution_succ s room hb]
    unfold call named?
    rw [hn]
    rfl
  have hl : i.command ≠ "loop" := by simp [hm]
  have ht : s.toll (room + 1) w k = 1 + s.span room js js.length := by
    unfold toll
    rw [hi]
    simp only [if_neg hl, if_pos hm, hcall]
    rfl
  rw [ht]
  exact Nat.lt_one_add_iff.2 (left_start hc)

theorem Bounded.counted (h : s.Bounded) {name : Value} {n : NodeId} {js : List Instruction}
    (hn : s.tree.findLeaves name = [n]) (hb : s.built n = some js) : Counted js := by
  have hm : n ∈ s.tree.findLeaves name := by simp [hn]
  have hc := h n (List.mem_filter.1 hm).1
  rwa [hb] at hc

/-- Every advance makes the burden smaller. -/
theorem Next.lighter (h : Next s base f w fs) (hw : f.work = .native w) (hs : s.Bounded) :
    s.burden Limits.maxFrameDepth fs < s.burden Limits.maxFrameDepth (base ++ [f]) := by
  have hf : f = f.doing w := by rw [Frame.doing, ← hw]
  rw [hf, burden_concat, weight_doing]
  cases h with
  | ended => omega
  | cleared => exact Nat.lt_of_lt_of_le (Nat.succ_pos _) (Nat.le_add_left _ _)
  | moved g v _ _ hl =>
    rw [burden_concat, weight_doing]
    omega
  | opened g i n js _ hi hm hn hb hd =>
    have hk := (List.getElem?_eq_some_iff.1 hi).1
    obtain ⟨room, hr⟩ : ∃ room, Limits.maxFrameDepth - (base.length + 1) = room + 1 :=
      Nat.exists_eq_add_one.2 (Nat.sub_pos_of_lt hd)
    have hr' : Limits.maxFrameDepth - ((base ++ [f.doing w.next]).length + 1) = room := by
      simp
      omega
    have hj := left_opened (s := s) room hi hm hn hb (hs.counted hn hb)
    rw [burden_concat, burden_concat, weight_doing, weight_doing, hr, hr', left_next hk]
    omega

end Session

end Macros
