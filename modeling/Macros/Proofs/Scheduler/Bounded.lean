import Macros.Proofs.Scheduler.Alone
import Macros.Proofs.Scheduler.Onward
import Mathlib.Data.Set.Finite.Lattice

/-!
Bounded macros come to an end. Every tick that advances makes the burden of the frames smaller, whatever
its line comes to; one that finds the client away leaves it as it is. So a run that is left alone ends once
the client stays, however macros start each other.
-/

namespace Macros

open Session

variable {σ τ : Type}

namespace Session

variable {o : Oracle σ τ} {b : Bridge τ} {s t u : Session σ τ} {f : Frame τ} {base fs : List (Frame τ)}
  {w : NativeWork}

/-- The client has been found to be away. -/
structure Away (t u : Session σ τ) : Prop where
  stack : u.stack = t.stack
  state : u.state = .notReady
  prior : u.prior = .running
  book : SameBook t u

/-- No macro has advanced, and none will as it stands. -/
structure Rested (t u : Session σ τ) : Prop where
  stack : u.stack = t.stack
  rests : u.state ≠ .running
  going : u.Going
  book : SameBook t u

theorem Away.rested (h : Away t u) : Rested t u :=
  ⟨h.stack, by simp [h.state], .inr (.inr ⟨h.state, h.prior⟩), h.book⟩

theorem Atop.enterNotReady (h : Atop t base f w) : Away t t.enterNotReady := by
  have hn : t.stack ≠ [] := by simp [h.stack]
  have he : t.enterNotReady = ({ t with prior := t.state }.setState .notReady).log .warning
      "Environment not ready, waiting" := by
    simp [Session.enterNotReady, h.running, hn]
  rw [he, setState_eq]
  exact ⟨rfl, rfl, h.running, rfl, rfl, rfl⟩

/-- The line stands where it stood, to be tried again. -/
theorem afterNative_away (h : Atop u base f w.next) (i : Instruction)
    (ht : t.stack = base ++ [f.doing w]) (hb : SameBook t u) :
    (u.afterNative f.id w.cursor i none).1 = .ok false ∧
      Away t (u.afterNative f.id w.cursor i none).2 := by
  have h1 : Atop (u.modifyNative f.id fun v => { v with cursor := w.cursor }) base f w := h.modifyNative _
  have h2 := h1.enterNotReady
  unfold afterNative
  dsimp only
  rw [if_pos h.owns]
  have h3 := (remarked_emitStatus
    (u.modifyNative f.id fun v => { v with cursor := w.cursor }).enterNotReady).untouched
  exact ⟨rfl, h3.stack.trans (h2.stack.trans (h1.stack.trans ht.symm)), h3.state.trans h2.state,
    h3.prior.trans h2.prior,
    (hb.trans (modifyNative_sameBook _ _ _)).trans (h2.book.trans h3.sameBook)⟩

/-- The innermost macro advances, or its line finds the client away. -/
theorem advanceNative_silent (ho : o.Silent) (hl : AllNative s.tree) (hu : s.settings.Usable)
    (hb : SameBook s t) (hs : t.Sound) (h : Atop t base f w) (hc : Counted w.instructions)
    (he : (t.advanceNative (.ofOracle b o) b (f.doing w) w).1 ≠ .error .endless) :
    ((t.advanceNative (.ofOracle b o) b (f.doing w) w).1 = .ok true ∧
      Moved s base f w t (t.advanceNative (.ofOracle b o) b (f.doing w) w).2) ∨
    (t.advanceNative (.ofOracle b o) b (f.doing w) w).1 = .ok false ∧
      Away t (t.advanceNative (.ofOracle b o) b (f.doing w) w).2 := by
  have hmem : f.doing w ∈ t.stack := by simp [h.stack]
  have hw : w.Sound := (Frame.sound_iff _).1 (hs.frames _ hmem)
  cases hi : w.instructions[w.cursor]? with
  | none =>
    have ha : t.advanceNative (.ofOracle b o) b (f.doing w) w =
        (.ok true, t.pop (f.doing w) .completed) := by
      unfold advanceNative
      rw [hi]
    rw [ha]
    exact .inl ⟨rfl, h.moved_pop ⟨rfl, rfl, rfl⟩ _⟩
  | some i =>
    have h0 : Atop (t.stepOver f.id) base f w.next :=
      (h.modifyNative NativeWork.next).untouched (remarked_emitStatus _).untouched
    have hb0 : SameBook t (t.stepOver f.id) :=
      (modifyNative_sameBook t f.id _).trans (remarked_emitStatus _).untouched.sameBook
    have hs0 : (t.stepOver f.id).Sound :=
      Changes.sound (stepOver_spec (o := o) (f := f.doing w) hs hmem rfl hi).1 hs
    have hs1 : ((t.stepOver f.id).perform (.ofOracle b o) b (f.doing w) i).2.Sound :=
      ((meanwhile b o).perform hs0 (f.doing w) i).changes.sound (hs0.of_eq rfl rfl rfl rfl)
    have hp : ((t.stepOver f.id).perform (.ofOracle b o) b (f.doing w) i).1 ≠ .error .endless := fun hx =>
      he (advanceNative_error (f := f.doing w) hi hx)
    have ha : ∀ x, ((t.stepOver f.id).perform (.ofOracle b o) b (f.doing w) i).1 = .ok x →
        t.advanceNative (.ofOracle b o) b (f.doing w) w =
          ((t.stepOver f.id).perform (.ofOracle b o) b (f.doing w) i).2.afterNative f.id w.cursor i x :=
      fun x hx => advanceNative_ok (f := f.doing w) hi (Prod.ext hx rfl)
    have hu1 : ∀ v, SameBook t v → v.settings.Usable := fun v hv => by
      rw [hv.settings, hb.settings]
      exact hu
    rcases perform_native ho (by rw [(hb.trans hb0).tree]; exact hl) (f.doing w) i hp with
      ⟨hx, h1⟩ | ⟨x, hx, h1 | ⟨h1, hsw⟩⟩
    · rw [ha _ hx]
      exact .inr (afterNative_away (h0.untouched h1) i h.stack (hb0.trans h1.sameBook))
    · have hb1 := hb0.trans h1.sameBook
      rw [ha _ hx]
      exact .inl (afterNative_moved (hu1 _ hb1) hs1 (h0.untouched h1) hw hc hi hb1 x)
    · rw [ha _ hx]
      exact .inl (afterNative_opened (hu1 _ (hb0.trans h1.sameBook)) hs1 h0 hi hb0 hb h1 (hsw _))

/-! A tick. -/

theorem leaveNotReady_keeps (h : u.stack ≠ []) :
    u.leaveNotReady.stack = u.stack ∧ u.leaveNotReady.state = u.prior ∧ SameBook u u.leaveNotReady := by
  unfold leaveNotReady
  rw [if_neg (by simpa using h), setState_eq]
  exact ⟨rfl, rfl, rfl, rfl, rfl⟩

/-- A run that waited for the client goes on running when it is back. -/
theorem recover_silent (ho : o.Silent) (hs : t.Sound) (hg : t.Going) :
    (t.recover (.ofOracle b o)).stack = t.stack ∧ (t.recover (.ofOracle b o)).Going ∧
      SameBook t (t.recover (.ofOracle b o)) := by
  unfold recover
  split
  · next hn =>
    have hr : Untouched t ((Client.ofOracle b o).ready t).2 := (respond_aside (b := b) ho .ready t).untouched
    have hp : t.prior = .running := by simpa [Going, hn] using hg
    have hne : t.stack ≠ [] := fun he => by simp [hs.idle_iff.2 he] at hn
    dsimp only
    split
    · obtain ⟨h1, h2, h3⟩ := leaveNotReady_keeps (hr.stack ▸ hne)
      exact ⟨h1.trans hr.stack, .inr (.inl (h2.trans (hr.prior.trans hp))), hr.sameBook.trans h3⟩
    · exact ⟨hr.stack, .inr (.inr ⟨hr.state.trans hn, hr.prior.trans hp⟩), hr.sameBook⟩
  · exact ⟨rfl, hg, rfl, rfl, rfl⟩

/-- What a frame of a bounded run is like: a native macro whose loops have counts, with no mark that was not
there before. -/
structure Fit (s : Session σ τ) (f : Frame τ) : Prop where
  counted : f.work.Counted
  marked : f.pauseAtLoop → ∃ g ∈ s.stack, g.pauseAtLoop

theorem Next.fit (h : Next s base f w fs) (hw : Counted w.instructions) (hs : s.Bounded)
    (hf : ∀ g ∈ base ++ [f], Fit s g) : ∀ g ∈ fs, Fit s g := by
  have hbase : ∀ g ∈ base, Fit s g := fun g hg => hf g (List.mem_append_left _ hg)
  have hmark := (hf f (by simp)).marked
  cases h with
  | ended => exact hbase
  | cleared => simp
  | moved g v hp hi _ =>
    have hv : Counted v.instructions := hi ▸ hw
    exact List.forall_mem_append.2
      ⟨hbase, List.forall_mem_singleton.2 ⟨hv, fun hg => hmark (hp hg)⟩⟩
  | opened g i n js hp _ _ hn hb _ =>
    refine List.forall_mem_append.2 ⟨List.forall_mem_append.2
      ⟨hbase, List.forall_mem_singleton.2 ⟨hw, hmark⟩⟩, List.forall_mem_singleton.2 ?_⟩
    exact ⟨hs.counted hn hb, fun hg => by simp [Frame.doing, hp] at hg⟩

/-- A run that has been left alone since `s`. -/
structure Since (s t : Session σ τ) : Prop where
  book : SameBook s t
  sound : t.Sound
  fit : ∀ f ∈ t.stack, Fit s f
  going : t.Going ∨ t.state = .paused ∧ ∃ g ∈ s.stack, g.pauseAtLoop

theorem Since.atop (h : Since s t) (hs : u.Sound) (hk : u.stack = t.stack) (hr : u.state = .running) :
    ∃ base f w, t.stack = base ++ [f] ∧ f.work = .native w ∧ Counted w.instructions ∧ Atop u base f w := by
  have hne : u.stack ≠ [] := fun he => by simp [hs.idle_iff.2 he] at hr
  obtain ⟨base, f, he⟩ := (List.eq_nil_or_concat' u.stack).resolve_left hne
  obtain ⟨w, hw, hc⟩ := (h.fit f (by simp [← hk, he])).counted.native
  have hf : f = f.doing w := by rw [Frame.doing, ← hw]
  have hp := hs.numbered
  rw [he] at hp
  exact ⟨base, f, w, hk ▸ he, hw, hc, by rw [he, ← hf],
    fun g hg => (List.pairwise_append.1 hp).2.2 g hg f (by simp), hr⟩

/-- A macro advances, or none does and none will as it stands. -/
theorem tick_silent (ho : o.Silent) (hl : AllNative s.tree) (hu : s.settings.Usable) (h : Since s t)
    (hg : t.Going) (he : Operation.tick.Returns (.ofOracle b o) b t) :
    ((t.tick (.ofOracle b o) b).1 = .ok true ∧ ∃ base f w, t.stack = base ++ [f] ∧ f.work = .native w ∧
      Counted w.instructions ∧ Moved s base f w t (t.tick (.ofOracle b o) b).2) ∨
    (t.tick (.ofOracle b o) b).1 = .ok false ∧ Rested t (t.tick (.ofOracle b o) b).2 := by
  obtain ⟨hk, hg', hb⟩ := recover_silent (b := b) ho h.sound hg
  have hs := Changes.sound (recover_changes (o := o) (b := b) h.sound) h.sound
  have hr : Untouched (t.recover (.ofOracle b o)) (t.tickStart (.ofOracle b o)) :=
    (respond_aside ho .ready _).untouched
  have hs' := (tickStart_meanwhile (o := o) (b := b) h.sound).changes.sound hs
  have hb' := hb.trans hr.sameBook
  rcases tick_cases (.ofOracle b o) b t with ⟨hn, ht⟩ | ⟨hn, ht⟩ | ⟨hn, ht⟩
  · rw [ht]
    exact .inr ⟨rfl, hk, hn, hg', hb⟩
  · obtain ⟨base, f, w, -, -, -, h1⟩ := h.atop hs' (hr.stack.trans hk) (hr.state.trans hn)
    have ha := h1.enterNotReady.rested
    rw [ht]
    exact .inr ⟨rfl, ha.stack.trans (hr.stack.trans hk), ha.rests, ha.going, hb'.trans ha.book⟩
  · have h1 := hr.trans (begin_untouched _)
    have hs₂ := (begin_changes (o := o) (t.tickStart (.ofOracle b o))).sound hs'
    obtain ⟨base, f, w, hf, hw, hc, h2⟩ := h.atop hs₂ (h1.stack.trans hk) (h1.state.trans hn)
    have ha : t.tick (.ofOracle b o) b =
        (t.tickStart (.ofOracle b o)).begin.advanceNative (.ofOracle b o) b (f.doing w) w := by
      rw [ht]
      unfold advance advanceTop
      rw [h2.top]
      rfl
    unfold Operation.Returns at he
    rw [ha] at he ⊢
    have hb₂ := hb.trans h1.sameBook
    rcases advanceNative_silent ho hl hu (h.book.trans hb₂) hs₂ h2 hc he with ⟨hx, h3⟩ | ⟨hx, h3⟩
    · exact .inl ⟨hx, base, f, w, hf, hw, hc, h3.frames, h3.state, hb₂.trans h3.book⟩
    · have h4 := h3.rested
      exact .inr ⟨hx, h4.stack.trans (h1.stack.trans hk), h4.rests, h4.going, hb₂.trans h4.book⟩

/-! A run. -/

/-- No control call comes in, every loop of every macro has a count, the options can be read, and every tick
returns. -/
structure LeftAlone (b : Bridge τ) (o : Oracle σ τ) (s : Session σ τ) : Prop where
  silent : o.Silent
  native : AllNative s.tree
  bounded : s.Bounded
  usable : s.settings.Usable
  returns : ∀ k, Operation.tick.Returns (.ofOracle b o) b (s.ticks (.ofOracle b o) b k)

/-- Does a tick advance a macro? -/
def advances (c : Client σ τ) (b : Bridge τ) (s : Session σ τ) : Bool :=
  (s.tick c b).1.toOption == some true

/-- In how many of so many ticks a macro advances. -/
def progress (c : Client σ τ) (b : Bridge τ) (s : Session σ τ) (k : Nat) : Nat :=
  (List.range k).countP fun j => (s.ticks c b j).advances c b

theorem progress_succ (c : Client σ τ) (b : Bridge τ) (s : Session σ τ) (k : Nat) :
    s.progress c b (k + 1) = s.progress c b k + if (s.ticks c b k).advances c b then 1 else 0 := by
  unfold progress
  rw [List.range_succ, List.countP_append, List.countP_singleton]

/-- What a tick does to a run that has been left alone. -/
theorem Since.tick (h : Since s t) (ha : LeftAlone b o s) (he : Operation.tick.Returns (.ofOracle b o) b t) :
    Since s (t.tick (.ofOracle b o) b).2 ∧
      if t.advances (.ofOracle b o) b then
        s.burden Limits.maxFrameDepth (t.tick (.ofOracle b o) b).2.stack <
          s.burden Limits.maxFrameDepth t.stack
      else
        (t.tick (.ofOracle b o) b).2.stack = t.stack ∧ (t.tick (.ofOracle b o) b).2.state ≠ .running := by
  have hs := Changes.sound (tick_changes (o := o) (b := b) h.sound) h.sound
  rcases h.going with hg | hp
  · rcases tick_silent ha.silent ha.native ha.usable h hg he with
      ⟨hx, base, f, w, hk, hw, hc, hm⟩ | ⟨hx, hr⟩
    · have hv : t.advances (.ofOracle b o) b := by simp [advances, hx, Except.toOption]
      rw [if_pos hv, hk]
      refine ⟨⟨h.book.trans hm.book, hs, hm.frames.fit hc ha.bounded (hk ▸ h.fit), ?_⟩,
        hm.frames.lighter hw ha.bounded⟩
      rcases hm.state with hi | hi | ⟨hi, hp⟩
      · exact .inl (.inl hi)
      · exact .inl (.inr (.inl hi))
      · exact .inr ⟨hi, (h.fit f (by simp [hk])).marked hp⟩
    · have hv : ¬t.advances (.ofOracle b o) b := by simp [advances, hx, Except.toOption]
      rw [if_neg hv]
      exact ⟨⟨h.book.trans hr.book, hs, hr.stack ▸ h.fit, .inl hr.going⟩, hr.stack, hr.rests⟩
  · have ht : t.tick (.ofOracle b o) b = (.ok false, t) := by
      simp [Session.tick, recover, hp.1]
    have hv : ¬t.advances (.ofOracle b o) b := by simp [advances, ht, Except.toOption]
    rw [if_neg hv, ht]
    exact ⟨h, rfl, by simp [hp.1]⟩

/-- Every advance is paid for by the burden that there was at first. -/
theorem Since.ticks (hs : Since s s) (ha : LeftAlone b o s) (k : Nat) :
    Since s (s.ticks (.ofOracle b o) b k) ∧ s.progress (.ofOracle b o) b k +
      s.burden Limits.maxFrameDepth (s.ticks (.ofOracle b o) b k).stack ≤
        s.burden Limits.maxFrameDepth s.stack := by
  induction k with
  | zero => exact ⟨hs, Nat.le_of_eq (Nat.zero_add _)⟩
  | succ k ih =>
    obtain ⟨h1, h2⟩ := ih.1.tick ha (ha.returns k)
    rw [ticks_succ, progress_succ]
    refine ⟨h1, ?_⟩
    split at h2
    · next hv =>
      rw [if_pos hv]
      omega
    · next hv =>
      rw [if_neg hv, h2.1]
      exact ih.2

/-- Nothing is left to be done, or a frame had been asked to pause the run and has done so. -/
def Over (s t : Session σ τ) : Prop :=
  t.stack = [] ∧ t.state = .idle ∨ t.state = .paused ∧ ∃ f ∈ s.stack, f.pauseAtLoop

/-- Once the client stays, the run comes to its end. -/
theorem Since.ends (hs : Since s s) (ha : LeftAlone b o s) {n k : Nat}
    (hn : ∀ j, (s.ticks (.ofOracle b o) b j).state = .notReady → j ≤ k)
    (hb : s.burden Limits.maxFrameDepth (s.ticks (.ofOracle b o) b k).stack = n) :
    ∃ j, Over s (s.ticks (.ofOracle b o) b j) := by
  induction n using Nat.strong_induction_on generalizing k with
  | _ n ih =>
    have h := (hs.ticks ha k).1
    obtain ⟨h1, h2⟩ := h.tick ha (ha.returns k)
    rw [← ticks_succ] at h1 h2
    split at h2
    · exact ih _ (hb ▸ h2) (fun j hj => Nat.le_succ_of_le (hn j hj)) rfl
    · refine ⟨k + 1, ?_⟩
      rcases h1.going with (hi | hi | ⟨hi, -⟩) | hi
      · exact .inl ⟨h1.sound.idle_iff.1 hi, hi⟩
      · exact absurd hi h2.2
      · exact absurd (hn _ hi) (Nat.not_succ_le_self k)
      · exact .inr hi

/-- A bounded run ends. However macros start each other and whatever their lines come to, only so many ticks
advance a macro as the frames and what they can start count for at first; and if the client is away at
finitely many ticks, a tick comes after which nothing is left to be done. -/
theorem bounded_run_ends (b : Bridge τ) {o : Oracle σ τ} {s : Session σ τ} (hs : s.Sound) (hg : s.Going)
    (hf : ∀ f ∈ s.stack, f.work.Counted) (ha : LeftAlone b o s) :
    (∀ k, s.progress (.ofOracle b o) b k ≤ s.burden Limits.maxFrameDepth s.stack) ∧
      (Set.Finite {k | (s.ticks (.ofOracle b o) b k).state = .notReady} →
        ∃ k, Over s (s.ticks (.ofOracle b o) b k)) := by
  have h : Since s s := ⟨⟨rfl, rfl, rfl⟩, hs, fun f hm => ⟨hf f hm, fun hp => ⟨f, hm, hp⟩⟩, .inl hg⟩
  refine ⟨fun k => Nat.le_of_add_right_le (h.ticks ha k).2, fun hn => ?_⟩
  obtain ⟨k, hk⟩ := hn.bddAbove
  exact h.ends ha (fun j hj => hk hj) rfl

/-- Two macros that start each other for as long as there is room, and a client that is away twice. -/
def spiral : Session (List Bool) Lines :=
  (Session.waiting [.native "A" "/send X\n/loop 1\n/runmacro B", .native "B" "/runmacro A"]
    [true, true, false, false, true]).operate (.ofOracle (.listed []) .patchy) (.listed [])
    [.control (.runByName "A" none)]

/-- The client is away for a while, the macros take all the room that there is, and the run ends. -/
theorem spiral_ends :
    let b := Bridge.listed []
    let c := Client.ofOracle b .patchy
    (spiral.ticks c b 3).state = .notReady ∧
      (spiral.ticks c b 49).stack.length = Limits.maxFrameDepth ∧
      (∀ k, spiral.progress c b k ≤ spiral.burden Limits.maxFrameDepth spiral.stack) ∧
      ∃ k, Over spiral (spiral.ticks c b k) := by
  intro b c
  have hi : (spiral.ticks c b 65).state = .idle := by decide +kernel
  have hrest : ∀ j, 65 ≤ j → (spiral.ticks c b j).state = .idle := by
    intro j hj
    obtain ⟨m, rfl⟩ := Nat.exists_eq_add_of_le hj
    rw [ticks_add, ticks_idle _ _ hi]
    exact hi
  have hr : spiral.Returns c b (List.replicate 65 .tick) := by decide +kernel
  have ha : LeftAlone b .patchy spiral :=
    { silent := fun _ _ => rfl
      native := by decide +kernel
      bounded := by decide +kernel
      usable := ⟨⟨false, by decide +kernel⟩, fun kind =>
        ⟨(Settings.stopKey? kind).isSome, by cases kind <;> decide +kernel⟩⟩
      returns := fun k => by
        rcases Nat.lt_or_ge k 65 with hk | hk
        · exact returns_ticks hr hk
        · show ((spiral.ticks c b k).tick c b).1 ≠ .error .endless
          rw [tick_idle c b (hrest k hk)]
          simp }
  obtain ⟨h1, h2⟩ := bounded_run_ends b (Reachable.sound (.operate (.idle ..) _))
    (.inr (.inl (by decide +kernel))) (by decide +kernel) ha
  refine ⟨by decide +kernel, by decide +kernel, h1,
    h2 ((Set.finite_lt_nat 65).subset fun k hk => Nat.lt_of_not_le fun h => ?_)⟩
  have hk : (spiral.ticks c b k).state = .notReady := hk
  simp [hrest k h] at hk

end Session

end Macros
