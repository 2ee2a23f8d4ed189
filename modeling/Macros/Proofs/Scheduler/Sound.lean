import Macros.Proofs.Scheduler.Change

/-!
What holds of every session that comes about, whatever is done to it: the run state fits the stack,
the stack is bounded, and every frame stands where its macro allows it to stand.
-/

namespace Macros

open Session

variable {σ τ : Type}

/-- The cursor is in range, and every counter belongs to a loop line with a count that it has not
reached. -/
structure NativeWork.Sound (w : NativeWork) : Prop where
  cursor_le : w.cursor ≤ w.instructions.length
  counters : ∀ k v, (k, v) ∈ w.counters → ∃ i n, w.instructions[k]? = some i ∧
    i.command = "loop" ∧ loopCount i = some n ∧ 0 ≤ v ∧ v < n

def Work.Sound : Work τ → Prop
  | .native w => w.Sound
  | .script _ => True

/-- The frame stands where its macro allows it to; a script has a mark of its own. -/
def Frame.Sound (f : Frame τ) : Prop :=
  match f.work with
  | .native w => f.cursor = w.cursor ∧ w.Sound
  | .script _ => f.cursor = Limits.embeddedStep

theorem Frame.sound_iff (f : Frame τ) : f.Sound ↔ f.work.Sound := by
  unfold Frame.Sound Frame.cursor
  cases f.work <;> simp [Work.Sound]

structure Session.Sound (s : Session σ τ) : Prop where
  idle_iff : s.state = .idle ↔ s.stack = []
  prior : s.state = .notReady → s.prior = .running ∨ s.prior = .paused
  depth : s.stack.length ≤ Limits.maxFrameDepth
  /-- The frames are numbered in the order in which they came, so no two are the same. -/
  numbered : s.stack.Pairwise (·.id < ·.id)
  fresh : ∀ f ∈ s.stack, f.id < s.nextId
  frames : ∀ f ∈ s.stack, f.Sound

theorem Work.Fresh.sound {w : Work τ} (h : w.Fresh) : w.Sound := by
  cases h with
  | native is => exact ⟨Nat.zero_le _, by simp [NativeWork.start]⟩
  | script run => trivial

theorem NativeWork.Sound.goTo {w : NativeWork} (h : w.Sound) {k : Nat}
    (hk : k ≤ w.instructions.length) : NativeWork.Sound { w with cursor := k } :=
  ⟨hk, h.counters⟩

theorem mem_setCounter {cs : List (Nat × Int)} {k j : Nat} {u v : Int}
    (h : (j, v) ∈ setCounter cs k u) : (j = k ∧ v = u) ∨ (j, v) ∈ cs := by
  simp only [setCounter, dropCounter, List.mem_cons, List.mem_filter, Prod.mk.injEq] at h
  exact h.imp_right And.left

theorem remaining_le {w : NativeWork} (h : w.Sound) {k : Nat} {i : Instruction} {n : Int}
    (hi : w.instructions[k]? = some i) (hn : loopCount i = some n) : remaining w k n ≤ n := by
  unfold remaining
  cases hl : w.counters.lookup k with
  | none => simp
  | some v =>
    have hm : (k, v) ∈ w.counters := by
      obtain ⟨l₁, l₂, hl, -⟩ := List.lookup_eq_some_iff.1 hl
      simp [hl]
    obtain ⟨i', n', hi', -, hn', -, hv⟩ := h.counters k v hm
    obtain rfl : i = i' := by rw [hi] at hi'; simpa using hi'
    obtain rfl : n = n' := by rw [hn] at hn'; simpa using hn'
    simpa using Int.le_of_lt hv

theorem NativeWork.Sound.countDown {w : NativeWork} (h : w.Sound) {k : Nat} {i : Instruction}
    (hi : w.instructions[k]? = some i) (hc : i.command = "loop") :
    ∀ j v, (j, v) ∈ Session.countDown w k (loopCount i) → ∃ i n, w.instructions[j]? = some i ∧
      i.command = "loop" ∧ loopCount i = some n ∧ 0 ≤ v ∧ v < n := by
  intro j v hm
  cases hn : loopCount i with
  | none => rw [hn] at hm; exact h.counters j v hm
  | some n =>
    have hr := remaining_le h hi hn
    rw [hn] at hm
    unfold Session.countDown at hm
    dsimp only at hm
    split at hm
    · rcases mem_setCounter hm with ⟨rfl, rfl⟩ | hm
      · exact ⟨i, n, hi, hc, hn, by omega, by omega⟩
      · exact h.counters j v hm
    · exact h.counters j v (List.mem_filter.1 hm).1

/-- Passing a loop line keeps the counters in range. -/
theorem NativeWork.Sound.passLoop {w : NativeWork} (h : w.Sound) {k : Nat} {n : Option Int}
    (hl : ∃ i, w.instructions[k]? = some i ∧ i.command = "loop" ∧ loopCount i = n) :
    (Session.passLoop w k n).Sound := by
  obtain ⟨i, hi, hc, rfl⟩ := hl
  unfold Session.passLoop
  split
  · exact ⟨Nat.zero_le _, h.countDown hi hc⟩
  · exact ⟨h.cursor_le, h.countDown hi hc⟩

namespace Session

theorem Sound.idle (tree : Tree) (settings : Settings) (registry : Registry) (x : σ) :
    (Session.idle tree settings registry x : Session σ τ).Sound := by
  constructor <;> simp [Session.idle]

/-- A change that leaves stack, states and numbering alone. -/
theorem Sound.of_eq {s s' : Session σ τ} (h : s.Sound) (hs : s'.stack = s.stack)
    (ht : s'.state = s.state) (hp : s'.prior = s.prior) (hn : s'.nextId = s.nextId) : s'.Sound := by
  constructor
  · rw [ht, hs]; exact h.idle_iff
  · rw [ht, hp]; exact h.prior
  · rw [hs]; exact h.depth
  · rw [hs]; exact h.numbered
  · rw [hs, hn]; exact h.fresh
  · rw [hs]; exact h.frames

/-- A change of the state alone, between states other than idle. -/
theorem Sound.of_state {s s' : Session σ τ} (h : s.Sound) (hs : s'.stack = s.stack)
    (hn : s'.nextId = s.nextId) (hi : s'.state = .idle ↔ s.stack = [])
    (hp : s'.state = .notReady → s'.prior = .running ∨ s'.prior = .paused) : s'.Sound := by
  constructor
  · rw [hs]; exact hi
  · exact hp
  · rw [hs]; exact h.depth
  · rw [hs]; exact h.numbered
  · rw [hs, hn]; exact h.fresh
  · rw [hs]; exact h.frames

/-- Frames change, but not their numbers. -/
theorem Sound.modify {s : Session σ τ} (h : s.Sound) (id : Nat) (g : Frame τ → Frame τ)
    (hid : ∀ f, (g f).id = f.id)
    (hw : ∀ f ∈ s.stack, f.id = id → (g f).work.Sound) : (s.modify id g).Sound := by
  have hstep : ∀ f : Frame τ, (if f.id = id then g f else f).id = f.id := by
    intro f; split
    · exact hid f
    · rfl
  constructor
  · simpa [Session.modify] using h.idle_iff
  · exact h.prior
  · simpa [Session.modify] using h.depth
  · simpa [Session.modify, List.pairwise_map, hstep] using h.numbered
  · intro f hf
    obtain ⟨f', hf', rfl⟩ := List.mem_map.1 hf
    rw [hstep]; exact h.fresh f' hf'
  · intro f hf
    obtain ⟨f', hf', rfl⟩ := List.mem_map.1 hf
    split
    · next hi => exact (Frame.sound_iff _).2 (hw f' hf' hi)
    · exact h.frames f' hf'

theorem Sound.push {s : Session σ τ} (h : s.Sound) (node : NodeId) (text : String) {work : Work τ}
    (hw : work.Fresh) (hd : s.stack.length < Limits.maxFrameDepth) :
    (s.push node text work).Sound := by
  rw [push_eq]
  constructor
  · dsimp only; split <;> simp
  · dsimp only; split <;> simp
  · simpa using Nat.succ_le_of_lt hd
  · simp only [List.pairwise_append, h.numbered, List.pairwise_cons, List.mem_singleton]
    refine ⟨trivial, by simp, ?_⟩
    rintro f hf g rfl
    exact h.fresh f hf
  · intro f hf
    rcases List.mem_append.1 hf with hf | hf
    · exact Nat.lt_succ_of_lt (h.fresh f hf)
    · rw [List.mem_singleton.1 hf]; exact Nat.lt_succ_self _
  · intro f hf
    rcases List.mem_append.1 hf with hf | hf
    · exact h.frames f hf
    · rw [List.mem_singleton.1 hf]; exact (Frame.sound_iff _).2 hw.sound

theorem Sound.pop {s : Session σ τ} (h : s.Sound) (f : Frame τ) (r : FrameResult) :
    (s.pop f r).Sound := by
  rw [pop_eq]
  have hsub : (s.without f.id).Sublist s.stack := List.filter_sublist
  constructor
  · dsimp only
    by_cases he : s.without f.id = []
    · simp [he]
    · have hne : s.stack ≠ [] := fun h' => he (by simp [without, h'])
      simp [he, h.idle_iff, hne]
  · dsimp only
    split
    · simp
    · exact h.prior
  · exact Nat.le_trans hsub.length_le h.depth
  · exact h.numbered.sublist hsub
  · exact fun g hg => h.fresh g (hsub.subset hg)
  · exact fun g hg => h.frames g (hsub.subset hg)

/-- Every change keeps a session sound. -/
theorem Change.sound {o : Oracle σ τ} {s s' : Session σ τ} (hc : Change o s s') (h : s.Sound) :
    s'.Sound := by
  cases hc with
  | client | remark | calling | called | hand | send | halt | clear | close | edit =>
    exact h.of_eq rfl rfl rfl rfl
  | push node text work hw hd => exact h.push node text hw hd
  | pop f r => exact h.pop f r
  | mark id pauses stops => exact h.modify id _ (fun _ => rfl) fun f hf _ => f.sound_iff.1 (h.frames f hf)
  | goTo id k hk =>
    refine h.modify id _ (fun f => by split <;> rfl) fun f hf hi => ?_
    have hw := f.sound_iff.1 (h.frames f hf)
    split
    · next w hw' => rw [hw'] at hw; exact hw.goTo (hk f hf hi w hw')
    · exact hw
  | passLoop id k n hk =>
    refine h.modify id _ (fun f => by split <;> rfl) fun f hf hi => ?_
    have hw := f.sound_iff.1 (h.frames f hf)
    split
    · next w hw' => rw [hw'] at hw; exact hw.passLoop (hk f hf hi w hw')
    · exact hw
  | script id g =>
    refine h.modify id _ (fun f => by split <;> rfl) fun f hf hi => ?_
    have hw := f.sound_iff.1 (h.frames f hf)
    split
    · exact hw
    · trivial
  | pause hr =>
    rw [setState_eq]
    refine h.of_state rfl rfl ?_ (by simp)
    simp [← h.idle_iff, hr]
  | resume hr =>
    rw [setState_eq]
    refine h.of_state rfl rfl ?_ (by simp)
    simp [← h.idle_iff, hr]
  | foresee x hr hx => exact h.of_state rfl rfl h.idle_iff fun _ => hx
  | await hr hs =>
    rw [setState_eq]
    refine h.of_state rfl rfl (by simp [hs]) fun _ => ?_
    have hi : s.state ≠ .idle := fun h' => hs (h.idle_iff.1 h')
    cases hst : s.state <;> simp_all
  | leave hp =>
    rw [setState_eq]
    refine h.of_state rfl rfl ?_ ?_
    · by_cases he : s.stack = []
      · simp [he]
      · rcases hp with hp | hp <;> simp [he, hp]
    · dsimp only
      split
      · simp
      · rcases hp with hp | hp <;> simp [hp]
  | rest hs =>
    rw [setState_eq]
    exact h.of_state rfl rfl (by simp [hs]) (by simp)

theorem Changes.sound {o : Oracle σ τ} {s s' : Session σ τ} (hc : Changes o s s') (h : s.Sound) :
    s'.Sound := by
  induction hc with
  | refl => exact h
  | tail _ hc ih => exact hc.sound ih

/-- Numbers are never given back. -/
theorem Changes.nextId_le {o : Oracle σ τ} {s s' : Session σ τ} (hc : Changes o s s') :
    s.nextId ≤ s'.nextId := by
  induction hc with
  | refl => exact Nat.le_refl _
  | tail _ hc ih =>
    refine Nat.le_trans ih ?_
    cases hc with
    | push => rw [push_eq]; exact Nat.le_succ _
    | pop => exact Nat.le_of_eq (by rw [pop_eq])
    | pause | resume | await | leave | rest => exact Nat.le_of_eq (by rw [setState_eq])
    | _ => exact Nat.le_refl _

/-- The state to go back to is running or paused, once it has been. -/
theorem Changes.prior {o : Oracle σ τ} {s s' : Session σ τ} (hc : Changes o s s') (h : s.Sound)
    (hp : s.prior = .running ∨ s.prior = .paused) : s'.prior = .running ∨ s'.prior = .paused := by
  induction hc with
  | refl => exact hp
  | @tail t t' ht hc ih =>
    have hs := Changes.sound ht h
    cases hc with
    | push => rw [push_eq]; dsimp only; split <;> simp [ih]
    | pop => rw [pop_eq]; exact ih
    | pause | resume | leave | rest => rw [setState_eq]; exact ih
    | foresee x _ hx => exact hx
    | await hr hne =>
      rw [setState_eq]
      have hi : t.state ≠ .idle := fun h' => hne (hs.idle_iff.1 h')
      cases hst : t.state <;> simp_all
    | _ => exact ih

end Session

end Macros
