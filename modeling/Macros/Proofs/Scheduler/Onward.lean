import Macros.Proofs.Scheduler.Agreement
import Macros.Proofs.Scheduler.Flight

/-!
A run that goes on by itself. While no control call comes in and no loop line is completed, the frames keep
their marks, new ones have none, and nothing is stopped or paused.
-/

namespace Macros

/-- Something is stopped or paused. -/
def Event.interrupts : Event → Bool
  | popped _ .stopped | finished _ .stopped | state .paused => true
  | _ => false

namespace Session

variable {σ τ : Type} {o : Oracle σ τ} {b : Bridge τ} {s s' s'' : Session σ τ} {l : Flight σ τ}

/-- The run is neither paused nor to be paused once the client is back. -/
def Going (s : Session σ τ) : Prop :=
  s.state = .idle ∨ s.state = .running ∨ s.state = .notReady ∧ s.prior = .running

/-- What has happened from one session to another of a run that goes on by itself. -/
structure Went (s s' : Session σ τ) (es : List Event) : Prop where
  marks : ∀ f ∈ s'.stack,
    (∃ g ∈ s.stack, g.id = f.id ∧ g.pauseAtLoop = f.pauseAtLoop ∧ g.stopAtLoop = f.stopAtLoop) ∨
      s.nextId ≤ f.id ∧ f.pauseAtLoop = false ∧ f.stopAtLoop = false
  calm : ∀ e ∈ es, ¬e.interrupts
  going : s'.Going

/-- The run goes on by itself, if no control call comes in. -/
def Onward (s s' : Session σ τ) : Prop :=
  s.nextId ≤ s'.nextId ∧ ∃ es, s'.journal = es ++ s.journal ∧
    ((∀ e ∈ es, ¬e.isControl) → s.Going → Went s s' es)

theorem Onward.trans (h : Onward s s') (h' : Onward s' s'') : Onward s s'' := by
  obtain ⟨hn, es, hj, hw⟩ := h
  obtain ⟨hn', es', hj', hw'⟩ := h'
  refine ⟨Nat.le_trans hn hn', es' ++ es, by rw [hj', hj, List.append_assoc], fun hc hg => ?_⟩
  obtain ⟨hc', hc⟩ := List.forall_mem_append.1 hc
  have h := hw hc hg
  have h' := hw' hc' h.going
  refine ⟨fun f hf => ?_, List.forall_mem_append.2 ⟨h'.calm, h.calm⟩, h'.going⟩
  rcases h'.marks f hf with ⟨g, hg, hi, hp, hs⟩ | ⟨hi, hp, hs⟩
  · rcases h.marks g hg with ⟨e, he, hi', hp', hs'⟩ | ⟨hi', hp', hs'⟩
    · exact .inl ⟨e, he, hi'.trans hi, hp'.trans hp, hs'.trans hs⟩
    · exact .inr ⟨hi ▸ hi', hp ▸ hp', hs ▸ hs'⟩
  · exact .inr ⟨Nat.le_trans hn hi, hp, hs⟩

/-- No frame comes, and those that stay keep everything but their work. -/
theorem Onward.of_tags (es : List Event) (hn : s'.nextId = s.nextId)
    (hj : s'.journal = es ++ s.journal) (hs : ∀ f ∈ s'.stack, ∃ g ∈ s.stack, g.tag = f.tag)
    (he : ∀ e ∈ es, ¬e.interrupts) (hg : s.Going → s'.Going) : Onward s s' := by
  refine ⟨Nat.le_of_eq hn.symm, es, hj, fun _ h => ⟨fun f hf => ?_, he, hg h⟩⟩
  obtain ⟨g, hg, ht⟩ := hs f hf
  simp only [Frame.tag, Prod.mk.injEq] at ht
  exact .inl ⟨g, hg, ht.1, ht.2.2.2.1, ht.2.2.2.2⟩

theorem tags_of_map (h : s'.stack.map (·.tag) = s.stack.map (·.tag)) :
    ∀ f ∈ s'.stack, ∃ g ∈ s.stack, g.tag = f.tag := fun f hf => by
  have hm : f.tag ∈ s.stack.map (·.tag) := h ▸ List.mem_map_of_mem hf
  obtain ⟨g, hg, ht⟩ := List.mem_map.1 hm
  exact ⟨g, hg, ht⟩

/-- A change that the stack and the run state are not touched by. -/
theorem Onward.same (hn : s'.nextId = s.nextId) (hj : s'.journal = s.journal)
    (hs : s'.stack = s.stack) (ht : s'.state = s.state) (hp : s'.prior = s.prior) : Onward s s' :=
  .of_tags [] hn hj (tags_of_map (by rw [hs])) (by simp) fun hg => by
    unfold Going
    rw [ht, hp]
    exact hg

theorem Onward.refl (s : Session σ τ) : Onward s s := .same rfl rfl rfl rfl rfl

theorem Event.interrupts_of_isRemark {e : Event} (h : e.isRemark) : ¬e.interrupts := by
  cases e <;> first | exact Bool.false_ne_true | cases h

theorem Worked.onward (h : Worked s s') : Onward s s' := by
  obtain ⟨fs, es, he, ht, rfl⟩ := h
  refine .of_tags _ rfl rfl (tags_of_map ht) (fun e hm => ?_) id
  rcases he e hm with he | ⟨id, v, rfl⟩
  · exact Event.interrupts_of_isRemark he
  · exact Bool.false_ne_true

theorem Remarked.onward (h : Remarked s s') : Onward s s' := h.worked.onward

theorem push_onward (s : Session σ τ) (node : NodeId) (text : String) (work : Work τ) :
    Onward s (s.push node text work) := by
  rw [push_eq]
  refine ⟨Nat.le_succ _, _, rfl, fun _ hg => ⟨fun f hf => ?_, fun e hm => ?_, ?_⟩⟩
  · rcases List.mem_append.1 hf with hf | hf
    · exact .inl ⟨f, hf, rfl, rfl, rfl⟩
    · rw [List.mem_singleton.1 hf]
      exact .inr ⟨Nat.le_refl _, rfl, rfl⟩
  · obtain ⟨_, rfl⟩ | ⟨_, _, rfl⟩ | rfl | rfl := pushNews_cases hm <;> exact Bool.false_ne_true
  · rcases hg with h | h | ⟨h, -⟩ <;> simp [Going, h]

theorem Starts.onward {p : Bool} (h : Starts s p s') : Onward s s' := by
  cases h with
  | nothing h => exact h.onward
  | pushed h node text work => exact h.onward.trans (push_onward _ node text work)

theorem onward (b : Bridge τ) (o : Oracle σ τ) : Respects b o Onward where
  refl := .refl
  trans := .trans
  client _ _ := .same rfl rfl rfl rfl rfl
  control {s} c h := by
    obtain ⟨es, hj, hc⟩ := apply_calls b s c
    refine ⟨(apply_meanwhile (o := o) b c h).nextId_le, es, hj, fun hn => ?_⟩
    rw [Journal.calls_of_quiet hn] at hc
    simp at hc
  start name _ _ := (runNested_starts b _ name).elim fun _ hp => hp.onward
  remark h := h.onward

/-! The driver's own part. -/

theorem begin_onward (s : Session σ τ) : Onward s s.begin := by
  unfold Session.begin
  split
  · exact .same rfl rfl rfl rfl rfl
  · exact .refl s

theorem pop_onward (s : Session σ τ) (f : Frame τ) {r : FrameResult} (hr : r ≠ .stopped) :
    Onward s (s.pop f r) := by
  rw [pop_eq]
  refine .of_tags _ rfl rfl (fun g hg => ⟨g, (List.mem_filter.1 hg).1, rfl⟩) (fun e hm => ?_) ?_
  · obtain ⟨_, rfl⟩ | rfl | rfl | ⟨_, _, rfl⟩ | rfl | rfl := popNews_cases hm <;>
      cases r <;> first | exact Bool.false_ne_true | exact absurd rfl hr
  · intro hg
    unfold Going
    dsimp only
    split
    · exact .inl rfl
    · exact hg

theorem popIfDone_onward (s : Session σ τ) (id : Nat) : Onward s (s.popIfDone id) := by
  rcases popIfDone_cases s id with he | ⟨f, -, he⟩
  · rw [he]
    exact .refl s
  · rw [he]
    exact pop_onward s f (by simp)

theorem popIfOwned_onward (s : Session σ τ) (id : Nat) {r : FrameResult} (hr : r ≠ .stopped) :
    Onward s (s.popIfOwned id r) := by
  rcases popIfOwned_cases s id r with he | ⟨f, -, he⟩
  · rw [he]
    exact .refl s
  · rw [he]
    exact pop_onward s f hr

theorem settle_onward (s : Session σ τ) (id : Nat) (i : Instruction) (x : Outcome) :
    Onward s (s.settle id i x).2 := by
  rcases settle_cases s id i x with hr | ⟨t, f, -, hr, he⟩
  · exact hr.onward
  · rw [he]
    exact hr.onward.trans (pop_onward t f (by simp))

/-- A run that waits for the client goes on when it is back. -/
theorem enterNotReady_onward (h : s.state = .idle → s.stack = []) : Onward s s.enterNotReady := by
  rcases enterNotReady_cases s with he | ⟨hn, hs, hr⟩
  · rw [he]
    exact .refl s
  · refine Onward.trans ?_ hr.onward
    rw [setState_eq]
    refine .of_tags _ rfl rfl (fun g hg => ⟨g, hg, rfl⟩) (fun e hm => ?_) fun hg => ?_
    · rw [stateNews_cases hm]
      exact Bool.false_ne_true
    · rcases hg with hg | hg | ⟨hg, -⟩
      · exact absurd (h hg) hs
      · exact .inr (.inr ⟨rfl, hg⟩)
      · exact absurd hg hn

/-- A run that waited for the client goes on as it did before. -/
theorem leaveNotReady_onward (hn : s.state = .notReady) : Onward s s.leaveNotReady := by
  unfold leaveNotReady
  refine Onward.trans ?_ (remarked_log _ _ _).onward
  rw [setState_eq]
  refine ⟨Nat.le_refl _, _, rfl, fun _ hg => ?_⟩
  have hp : s.prior = .running := by
    rcases hg with hg | hg | ⟨-, hp⟩
    · simp [hg] at hn
    · simp [hg] at hn
    · exact hp
  refine ⟨fun f hf => .inl ⟨f, hf, rfl, rfl, rfl⟩, fun e hm => ?_, ?_⟩
  · rw [stateNews_cases hm, hp]
    split <;> exact Bool.false_ne_true
  · unfold Going
    dsimp only
    split <;> simp [hp]

theorem leaveNotReady_reports (s : Session σ τ) : Reports s s.leaveNotReady :=
  (setState_reports s _).trans (remarked_log _ _ _).reports

theorem leaveNotReady_nextId (s : Session σ τ) : s.leaveNotReady.nextId = s.nextId := by
  unfold leaveNotReady
  rw [setState_eq]
  rfl

theorem recover_onward (h : s.Sound) : Onward s (s.recover (.ofOracle b o)) := by
  have h1 := (onward b o).respond .ready h
  obtain ⟨es, hj, ha⟩ := respond_leftByCalls (b := b) (o := o) .ready s
  unfold recover
  split
  · next hn =>
    dsimp only
    split
    · -- without a control call the client finds the session still waiting
      obtain ⟨hn', es', hj', hw⟩ := h1
      obtain rfl : es = es' := List.append_cancel_right (hj.symm.trans hj')
      by_cases hc : ∀ e ∈ es, ¬e.isControl
      · have ht : (o.respond b .ready s).2.state = .notReady := by
          rw [Journal.calls_of_quiet hc] at ha
          obtain ⟨x, js, -, ht⟩ := ha
          rw [ht]
          exact hn
        exact Onward.trans ⟨hn', es, hj, hw⟩ (leaveNotReady_onward ht)
      · obtain ⟨es₂, -, hj₂⟩ := leaveNotReady_reports (o.respond b .ready s).2
        refine ⟨Nat.le_trans hn' (Nat.le_of_eq (leaveNotReady_nextId _).symm), es₂ ++ es, ?_, fun hx => ?_⟩
        · exact hj₂.trans (by rw [hj, List.append_assoc])
        · exact absurd (List.forall_mem_append.1 hx).2 hc
    · exact h1
  · exact .refl s

theorem afterNative_onward (h : s.Sound) {x : LineResult} {i : Instruction}
    (hx : ∀ y, x = some y → completesLoop i y = false) (id k : Nat) :
    Onward s (s.afterNative id k i x).2 := by
  unfold afterNative
  cases x with
  | none =>
    dsimp only
    split
    · have h1 := (modifyNative_worked s id fun w => { w with cursor := k }).onward
      refine (h1.trans (enterNotReady_onward fun hi => ?_)).trans (remarked_emitStatus _).onward
      simpa [modifyNative, Session.modify] using h.idle_iff.1 hi
    · exact .refl s
  | some y =>
    have h1 := settle_onward s id i y
    dsimp only
    split
    · next hr => rw [hr] at h1; exact h1
    · next hr => rw [hr] at h1; exact h1
    · next hr =>
      rw [hr] at h1
      simp only [hx y rfl, Bool.false_eq_true, ↓reduceIte]
      exact h1.trans (popIfDone_onward _ id)

theorem afterScript_onward (h : s.Sound) {x : LineResult} {i : Instruction}
    (hx : ∀ y, x = some y → completesLoop i y = false) (id : Nat) (line : String) :
    Onward s (s.afterScript id line i x).2 := by
  unfold afterScript
  cases x with
  | none =>
    dsimp only
    split
    · refine (modifyScript_worked s id _).onward.trans (enterNotReady_onward fun hi => ?_)
      simpa [modifyScript, Session.modify] using h.idle_iff.1 hi
    · exact .refl s
  | some y =>
    have h1 := (modifyScript_worked s id fun w => { w with pendingResult := .flag y.ok }).onward.trans
      (settle_onward _ id i y)
    dsimp only
    split
    · next hr => rw [hr] at h1; exact h1
    · next hr => rw [hr] at h1; exact h1
    · next hr =>
      rw [hr] at h1
      simpa only [hx y rfl, Bool.false_eq_true, ↓reduceIte] using h1

/-- What leads up to a line, until it is handed over. -/
theorem flight_onward (h : s.Sound) (hl : s.flight? (.ofOracle b o) b = some l) :
    Onward s l.session := by
  obtain ⟨-, n, t, hr, hr'⟩ := flight_readied hl
  have hs := hr.sound ((begin_changes (o := o) s).sound h)
  have h1 := ((onward b o).hostCalls n hs).trans hr'.worked.onward
  exact (begin_onward s).trans (hr.worked.onward.trans h1)

/-- The flight of a line and what follows, if the line completes no loop. -/
theorem conclude_onward (h : l.session.Sound)
    (hx : ∀ y, (l.landed (.ofOracle b o) b).1 = .ok (some y) → completesLoop l.line y = false) :
    Onward l.session (l.conclude (.ofOracle b o) b).2 := by
  have h1 : Onward l.session (l.session.record (.handed l.frame.id l.line)) :=
    .of_tags [.handed l.frame.id l.line] rfl rfl (fun g hg => ⟨g, hg, rfl⟩)
      (List.forall_mem_singleton.2 Bool.false_ne_true) fun hg => hg
  have h2 := h1.trans ((onward b o).perform h l.frame l.line)
  have h3 := ((meanwhile b o).perform h l.frame l.line).changes.sound (h.of_eq rfl rfl rfl rfl)
  unfold Flight.conclude
  unfold Flight.landed at hx ⊢
  cases hp : l.session.perform (.ofOracle b o) b l.frame l.line with
  | mk x t =>
    rw [hp] at h2 h3 hx
    cases x with
    | error e => exact h2
    | ok x =>
      have hx : ∀ y, x = some y → completesLoop l.line y = false := fun y hy => hx y (by rw [hy])
      dsimp only [Flight.follow]
      split
      · exact h2.trans (afterNative_onward h3 hx _ _)
      · exact h2.trans (afterScript_onward h3 hx _ _)

theorem advance_onward (h : s.Sound) (hl : s.flight? (.ofOracle b o) b = none) :
    Onward s (s.advance (.ofOracle b o) b).2 := by
  have hs := (begin_changes (o := o) s).sound h
  refine (begin_onward s).trans ?_
  rcases advance_grounded hl with ⟨he, ha⟩ | ⟨f, -, ha⟩ | ⟨-, n, t, u, ht, hu, ha⟩
  · -- nothing runs, so the session is idle as it is
    have hi : s.begin.setState .idle = s.begin := by simp [setState, hs.idle_iff.2 he]
    rw [ha, hi]
    exact .refl _
  · rw [ha]
    exact pop_onward _ f (by simp)
  · have h1 := ht.worked.onward.trans
      (((onward b o).hostCalls n (ht.sound hs)).trans hu.worked.onward)
    rcases ha with ha | ⟨id, r, hr, ha⟩
    · rw [ha]
      exact h1
    · rw [ha]
      exact h1.trans (popIfOwned_onward u id hr)

/-- The frame that completes a loop line in the next tick. -/
def loopedBy? (c : Client σ τ) (b : Bridge τ) (s : Session σ τ) : Option Nat :=
  match s.tickFlight? c b with
  | none => none
  | some l =>
    match (l.landed c b).1 with
    | .ok (some x) => if completesLoop l.line x then some l.frame.id else none
    | _ => none

theorem loopedBy?_some {c : Client σ τ} {id : Nat} (h : s.loopedBy? c b = some id) :
    ∃ l x, s.tickFlight? c b = some l ∧ (l.landed c b).1 = .ok (some x) ∧
      completesLoop l.line x ∧ l.frame.id = id := by
  unfold loopedBy? at h
  split at h
  · simp at h
  · next l hl =>
    split at h
    · next x hx =>
      split at h
      · next hc => exact ⟨l, x, hl, hx, hc, Option.some.inj h⟩
      · simp at h
    · simp at h

/-- A tick in which no loop line is completed. -/
theorem tick_onward (h : s.Sound) (hl : s.loopedBy? (.ofOracle b o) b = none) :
    Onward s (s.tick (.ofOracle b o) b).2 := by
  have h0 := recover_onward (o := o) (b := b) h
  have hs := Changes.sound (recover_changes (o := o) (b := b) h) h
  have h1 : Onward s (s.tickStart (.ofOracle b o)) := h0.trans ((onward b o).respond .ready hs)
  have hs' := (tickStart_meanwhile (o := o) (b := b) h).changes.sound hs
  cases ht : s.tickFlight? (.ofOracle b o) b with
  | some l =>
    have hx : ∀ y, (l.landed (.ofOracle b o) b).1 = .ok (some y) → completesLoop l.line y = false := by
      intro y hy
      simpa [loopedBy?, ht, hy] using hl
    have hf := (tickFlight?_some ht).2
    rw [tick_flight ht]
    exact (h1.trans (flight_onward hs' hf)).trans (conclude_onward (flight_spec hs' hf).1 hx)
  | none =>
    rcases tickFlight?_none ht with ⟨-, ht⟩ | ⟨-, ht⟩ | ⟨-, hn, ht⟩
    · rw [ht]
      exact h0
    · rw [ht]
      exact h1.trans (enterNotReady_onward hs'.idle_iff.1)
    · rw [ht]
      exact h1.trans (advance_onward hs' hn)

end Session

end Macros
