import Macros.Proofs.Scheduler.Outside

/-!
What each part of an advance can come to, read off it once. A part that only tells observers
something leaves a session behind that is remarked on, whatever was said.
-/

namespace Macros

open Session

variable {σ τ : Type}

namespace Session

theorem top?_mem {s : Session σ τ} {f : Frame τ} (h : s.top? = some f) : f ∈ s.stack :=
  List.mem_of_getLast? h

theorem frame?_some {s : Session σ τ} {f : Frame τ} {id : Nat} (h : s.frame? id = some f) :
    f ∈ s.stack ∧ f.id = id :=
  ⟨List.mem_of_find?_eq_some h, by simpa using List.find?_some h⟩

theorem popIfDone_cases (s : Session σ τ) (id : Nat) :
    s.popIfDone id = s ∨ ∃ f ∈ s.stack, s.popIfDone id = s.pop f .completed := by
  unfold popIfDone
  split
  · exact .inl rfl
  · next f hf =>
    split
    · exact .inl rfl
    · split
      · split
        · exact .inr ⟨f, top?_mem hf, rfl⟩
        · exact .inl rfl
      · exact .inl rfl

theorem popIfDone_nil {s : Session σ τ} (h : s.stack = []) (id : Nat) : s.popIfDone id = s := by
  simp [popIfDone, top?, h]

theorem popIfOwned_cases (s : Session σ τ) (id : Nat) (r : FrameResult) :
    s.popIfOwned id r = s ∨ ∃ f ∈ s.stack, s.popIfOwned id r = s.pop f r := by
  unfold popIfOwned
  split
  · next f hf => exact .inr ⟨f, (frame?_some hf).1, rfl⟩
  · exact .inl rfl

theorem enterNotReady_cases (s : Session σ τ) :
    s.enterNotReady = s ∨ s.state ≠ .notReady ∧ s.stack ≠ [] ∧
      Remarked ({ s with prior := s.state }.setState .notReady) s.enterNotReady := by
  unfold enterNotReady
  split
  · exact .inl rfl
  · next h =>
    simp only [Bool.or_eq_true, decide_eq_true_eq, List.isEmpty_iff, not_or] at h
    exact .inr ⟨h.1, h.2, remarked_log _ _ _⟩

/-- A mark is looked at when its frame passes a loop line. -/
theorem loopFlags_cases (s : Session σ τ) (id : Nat) :
    s.loopFlags id = s ∨ (∃ t, Remarked s t ∧ s.loopFlags id = t.halt) ∨
      ∃ f t, s.frame? id = some f ∧ f.pauseAtLoop ∧
        t = s.modify id (fun f => { f with pauseAtLoop := false }) ∧
        Remarked (if t.state = .running then t.setState .paused else t) (s.loopFlags id) := by
  unfold loopFlags
  split
  · exact .inl rfl
  · next f hf =>
    split
    · exact .inr (.inl ⟨_, remarked_log _ _ _, rfl⟩)
    · split
      · next hp => exact .inr (.inr ⟨f, _, hf, hp, rfl, remarked_log _ _ _⟩)
      · exact .inl rfl

theorem completesLoop_command {i : Instruction} {x : Outcome} (h : completesLoop i x) :
    i.command = "loop" := by
  simp only [completesLoop, Bool.and_eq_true, beq_iff_eq] at h
  exact h.1

theorem reportLoop_remarked (s : Session σ τ) (name : Value) (done : Nat) (n : Option Int) :
    Remarked s (s.reportLoop name done n).2 := by
  have h1 : Remarked s (s.record (.loop name done n)) := remarked_record s rfl
  unfold reportLoop
  dsimp only
  split
  · exact h1
  · exact h1.trans (remarked_emitStatus _)
  · exact h1.trans ((remarked_log _ _ _).trans (remarked_emitStatus _))

theorem loopBoundary_cases (s : Session σ τ) (id k : Nat) (n : Option Int) :
    (s.loopBoundary id k n).2 = s ∨ (s.loopBoundary id k n).2 = s.loopFlags id ∨
      ∃ t, Remarked (s.modifyNative id fun w => passLoop w k n) t ∧
        ((s.loopBoundary id k n).2 = t ∨ (s.loopBoundary id k n).2 = t.loopFlags id) := by
  unfold loopBoundary
  split
  · exact .inl rfl
  · next f _ =>
    split
    · exact .inr (.inl rfl)
    · split
      · exact .inr (.inl rfl)
      · next w _ =>
        refine .inr (.inr ?_)
        have h1 := reportLoop_remarked (s.modifyNative id fun w => passLoop w k n)
          ((s.modifyNative id fun w => passLoop w k n).nameOf f) (w.loopsDone + 1) n
        dsimp only
        split
        · split
          · next hr => rw [hr] at h1; exact ⟨_, h1, .inl rfl⟩
          · next hr => rw [hr] at h1; exact ⟨_, h1, .inr rfl⟩
        · exact ⟨_, .refl _, .inr rfl⟩

/-- An outcome lets the frame go on with a remark, or takes it off. -/
theorem settle_cases (s : Session σ τ) (id : Nat) (i : Instruction) (x : Outcome) :
    Remarked s (s.settle id i x).2 ∨
      ∃ t, ∃ f ∈ t.stack, Remarked s t ∧ s.settle id i x = (.ok false, t.pop f .failed) := by
  unfold settle
  split
  · exact .inl (.refl s)
  · next f hf =>
    split
    · exact .inl (.refl s)
    · dsimp only
      split
      · exact .inl (.refl s)
      · have h1 := remarked_log s .error
          (place (s.nameOf f) i ++ ": " ++ if x.reason.isEmpty then x.status.label else x.reason)
        exact .inr ⟨_, f, by rw [h1.stack]; exact (frame?_some hf).1, h1, rfl⟩
      · exact .inl (remarked_log _ _ _)

/-- A line of a native macro is repeated once the client is back; or its outcome takes the frame off;
or a loop line is passed, and the macro taken off with its last line. -/
theorem afterNative_cases (s : Session σ τ) (id k : Nat) (i : Instruction) (x : LineResult) :
    (s.afterNative id k i x).2 = s ∨
    (s.afterNative id k i x).2 =
      (s.modifyNative id fun w => { w with cursor := k }).enterNotReady.emitStatus ∨
    (∃ y, (s.afterNative id k i x).2 = (s.settle id i y).2) ∨
    ∃ t u, Remarked s t ∧
      (u = t ∨ i.command = "loop" ∧ u = (t.loopBoundary id k (loopCount i)).2) ∧
      ((s.afterNative id k i x).2 = u ∨ (s.afterNative id k i x).2 = u.popIfDone id) := by
  unfold afterNative
  cases x with
  | none =>
    dsimp only
    split
    · exact .inr (.inl rfl)
    · exact .inl rfl
  | some x =>
    have h1 := settle_cases s id i x
    dsimp only
    split
    · next hr => exact .inr (.inr (.inl ⟨x, by rw [hr]⟩))
    · next hr => exact .inr (.inr (.inl ⟨x, by rw [hr]⟩))
    · next t hr =>
      rw [hr] at h1
      have h2 : Remarked s t := h1.resolve_right (by simp)
      refine .inr (.inr (.inr ⟨t, ?_⟩))
      split
      · next hx =>
        have hc := completesLoop_command hx
        split
        · next hr => exact ⟨_, h2, .inr ⟨hc, rfl⟩, .inl (by rw [hr])⟩
        · next hr => exact ⟨_, h2, .inr ⟨hc, rfl⟩, .inr (by rw [hr])⟩
      · exact ⟨t, h2, .inl rfl, .inr rfl⟩

/-- A native frame is moved past its line before the line is handed over. -/
def stepOver (s : Session σ τ) (id : Nat) : Session σ τ :=
  (s.modifyNative id fun w => { w with cursor := w.cursor + 1 }).emitStatus

theorem advanceNative_cases (c : Client σ τ) (b : Bridge τ) (s : Session σ τ) (f : Frame τ)
    (w : NativeWork) :
    (s.advanceNative c b f w).2 = s.pop f .completed ∨
    ∃ i t, w.instructions[w.cursor]? = some i ∧ t = ((s.stepOver f.id).perform c b f i).2 ∧
      ((s.advanceNative c b f w).2 = t ∨
        ∃ x, (s.advanceNative c b f w).2 = (t.afterNative f.id w.cursor i x).2) := by
  unfold advanceNative
  split
  · exact .inl rfl
  · next i hi =>
    refine .inr ⟨i, _, hi, rfl, ?_⟩
    unfold stepOver
    dsimp only
    split
    · next hr => exact .inl (by rw [hr])
    · next x _ hr => exact .inr ⟨x, by rw [hr]⟩

/-- A line of a script is repeated once the client is back; or its outcome takes the frame off; or
the script is told how the line ended, and the marks are looked at after a loop line. -/
theorem afterScript_cases (s : Session σ τ) (id : Nat) (line : String) (i : Instruction)
    (x : LineResult) :
    (s.afterScript id line i x).2 = s ∨
    (s.afterScript id line i x).2 =
      (s.modifyScript id fun w => { w with pendingLine := some line }).enterNotReady ∨
    ∃ y t, t = s.modifyScript id (fun w => { w with pendingResult := .flag y.ok }) ∧
      ((s.afterScript id line i x).2 = (t.settle id i y).2 ∨
        i.command = "loop" ∧ ∃ u, Remarked t u ∧ (s.afterScript id line i x).2 = u.loopFlags id) := by
  unfold afterScript
  cases x with
  | none =>
    dsimp only
    split
    · exact .inr (.inl rfl)
    · exact .inl rfl
  | some x =>
    refine .inr (.inr ⟨x, _, rfl, ?_⟩)
    have h1 := settle_cases (s.modifyScript id fun w => { w with pendingResult := .flag x.ok }) id i x
    dsimp only
    split
    · next hr => exact .inl (by rw [hr])
    · next hr => exact .inl (by rw [hr])
    · next u hr =>
      rw [hr] at h1
      split
      · next hx => exact .inr ⟨completesLoop_command hx, u, h1.resolve_right (by simp), rfl⟩
      · exact .inl (by rw [hr])

/-- A line that a script yielded is not understood, or says nothing; or it is handed over. -/
theorem scriptLine_cases (c : Client σ τ) (b : Bridge τ) (s : Session σ τ) (f : Frame τ)
    (line : String) (k : Int) :
    (∃ t p, Remarked s t ∧ (s.scriptLine c b f line k).2 =
      t.modifyScript f.id fun w => { w with pendingResult := .flag p }) ∨
    ∃ i t, t = (s.emitStatus.perform c b f i).2 ∧
      ((s.scriptLine c b f line k).2 = t ∨
        ∃ x, (s.scriptLine c b f line k).2 = (t.afterScript f.id line i x).2) := by
  have h1 := remarked_emitStatus s
  unfold scriptLine
  dsimp only
  split
  · exact .inl ⟨_, false, h1.trans (remarked_log _ _ _), rfl⟩
  · exact .inl ⟨_, true, h1, rfl⟩
  · next i _ =>
    refine .inr ⟨i, _, rfl, ?_⟩
    split
    · next hr => exact .inl (by rw [hr])
    · next x _ hr => exact .inr ⟨x, by rw [hr]⟩

theorem advanceScript_cases (c : Client σ τ) (b : Bridge τ) (s : Session σ τ) (f : Frame τ)
    (w : ScriptWork τ) :
    (∃ line k, (s.advanceScript c b f w).2 =
      ((s.modifyScript f.id fun w => { w with pendingLine := none }).scriptLine c b f line k).2) ∨
    ∃ t, t = (s.scriptStep c b f w).2 ∧
      ((∃ u r, Remarked t u ∧ (s.advanceScript c b f w).2 = u.popIfOwned f.id r) ∨
        ∃ line k, (s.advanceScript c b f w).2 =
          ((t.modifyScript f.id fun w => { w with steps := w.steps + 1 }).scriptLine c b f
            line k).2) := by
  unfold advanceScript
  split
  · exact .inl ⟨_, _, rfl⟩
  · refine .inr ⟨_, rfl, ?_⟩
    split
    · next hr => exact .inl ⟨_, _, by rw [hr]; exact remarked_log _ _ _, rfl⟩
    · next hr => exact .inl ⟨_, _, .refl _, by rw [hr]⟩
    · next hr => exact .inr ⟨_, _, by rw [hr]⟩

/-- The session as the line of a tick begins. -/
def tickStart (c : Client σ τ) (s : Session σ τ) : Session σ τ := (c.ready (s.recover c)).2

/-- The session as the line of a step begins. -/
def stepStart (c : Client σ τ) (s : Session σ τ) : Session σ τ := (c.ready s).2

theorem tick_cases (c : Client σ τ) (b : Bridge τ) (s : Session σ τ) :
    ((s.recover c).state ≠ .running ∧ s.tick c b = (.ok false, s.recover c)) ∨
    ((s.recover c).state = .running ∧ s.tick c b = (.ok false, (s.tickStart c).enterNotReady)) ∨
    ((s.recover c).state = .running ∧ s.tick c b = (s.tickStart c).advance c b) := by
  unfold tick
  dsimp only
  split
  · next h => exact .inl ⟨h, rfl⟩
  · next h =>
    have h : (s.recover c).state = .running := by simpa using h
    split
    · exact .inr (.inr ⟨h, rfl⟩)
    · exact .inr (.inl ⟨h, rfl⟩)

theorem step_cases (c : Client σ τ) (b : Bridge τ) (s : Session σ τ) :
    s.step c b = (.ok false, s) ∨
    (s.state = .paused ∧ s.step c b = (.ok false, (s.stepStart c).enterNotReady)) ∨
    (s.state = .paused ∧ ∃ e s', (s.stepStart c).advance c b = (.error e, s') ∧
      s.step c b = (.error e, s')) ∨
    (s.state = .paused ∧ ∃ a s', (s.stepStart c).advance c b = (.ok a, s') ∧
      s.step c b =
        (.ok a, if s'.state = .running && !s'.stack.isEmpty then s'.setState .paused else s')) := by
  unfold step
  split
  · exact .inl rfl
  · next h =>
    have h : s.state = .paused := by
      simp only [Bool.or_eq_true, decide_eq_true_eq, not_or, ne_eq, Decidable.not_not] at h
      exact h.1
    dsimp only
    split
    · exact .inr (.inl ⟨h, rfl⟩)
    · split
      · next e s' hr => exact .inr (.inr (.inl ⟨h, e, s', hr, rfl⟩))
      · next a s' hr => exact .inr (.inr (.inr ⟨h, a, s', hr, rfl⟩))

end Session

end Macros
