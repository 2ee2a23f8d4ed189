import Macros.Proofs.Scheduler.Outside

/-!
What control calls report. A call that takes no frame off tells observers something, pushes a frame or
changes the run state; and no call has another one among its reports, so that the calls that came
in can be read off a journal.
-/

namespace Macros

/-- Remarks, and reports of a frame that is put on and of the run state. -/
def Event.isMild : Event → Bool
  | state _ | pushed _ => true
  | e => e.isRemark

theorem Event.isMild_of_isRemark {e : Event} (h : e.isRemark) : e.isMild := by
  cases e <;> first | rfl | cases h

theorem Event.quiet_of_isMild {e : Event} (h : e.isMild) : ¬e.isControl := by
  cases e <;> first | exact Bool.false_ne_true | cases h

/-- The control calls that came in, in order. -/
def Journal.calls : List Event → List Control
  | [] => []
  | .calling c :: es => calls es ++ [c]
  | _ :: es => calls es

namespace Journal

theorem calls_append (p q : List Event) : calls (p ++ q) = calls q ++ calls p := by
  induction p with
  | nil => simp [calls]
  | cons e p ih => cases e <;> simp [calls, ih]

theorem calls_of_quiet {es : List Event} (h : ∀ e ∈ es, ¬e.isControl) : calls es = [] := by
  induction es with
  | nil => rfl
  | cons e es ih =>
    have he := h e (by simp)
    have ih' := ih fun e' h' => h e' (by simp [h'])
    cases e with
    | calling => exact absurd rfl he
    | _ => exact ih'

end Journal

namespace Session

variable {σ τ : Type} {b : Bridge τ} {s s' s'' : Session σ τ}

/-- Mild reports have been made, and no stop has been set. -/
def Mild (s s' : Session σ τ) : Prop :=
  s'.stopEvent = s.stopEvent ∧
    ∃ es : List Event, (∀ e ∈ es, e.isMild) ∧ s'.journal = es ++ s.journal

theorem Mild.same (he : s'.stopEvent = s.stopEvent) (hj : s'.journal = s.journal) : Mild s s' :=
  ⟨he, [], by simp, hj⟩

theorem Mild.refl (s : Session σ τ) : Mild s s := .same rfl rfl

theorem Mild.trans (h : Mild s s') (h' : Mild s' s'') : Mild s s'' := by
  obtain ⟨hx, es, he, hj⟩ := h
  obtain ⟨hx', es', he', hj'⟩ := h'
  exact ⟨hx'.trans hx, es' ++ es, List.forall_mem_append.2 ⟨he', he⟩,
    by rw [hj', hj, List.append_assoc]⟩

theorem Remarked.mild (h : Remarked s s') : Mild s s' := by
  obtain ⟨es, he, rfl⟩ := h
  exact ⟨rfl, es, fun e hm => Event.isMild_of_isRemark (he e hm), rfl⟩

theorem setState_mild (s : Session σ τ) (x : RunState) : Mild s (s.setState x) := by
  rw [setState_eq]
  refine ⟨rfl, _, fun e hm => ?_, rfl⟩
  rw [stateNews_cases hm]
  rfl

theorem push_mild (s : Session σ τ) (node : NodeId) (text : String) (work : Work τ) :
    Mild s (s.push node text work) := by
  rw [push_eq]
  refine ⟨rfl, _, fun e hm => ?_, rfl⟩
  obtain ⟨_, rfl⟩ | ⟨_, _, rfl⟩ | rfl | rfl := pushNews_cases hm <;> rfl

theorem Starts.mild {p : Bool} (h : Starts s p s') : Mild s s' := by
  cases h with
  | nothing h => exact h.mild
  | pushed h node text work => exact h.mild.trans (push_mild _ node text work)

theorem markTop_mild (s : Session σ τ) (g : Frame τ → Frame τ) : Mild s (s.markTop g) := by
  unfold markTop
  split
  · exact .same rfl rfl
  · exact .refl s

theorem pause_mild (s : Session σ τ) (atLoop : Bool) : Mild s (s.pause atLoop) := by
  unfold pause pauseAtLoop pauseNow
  split
  · split
    · exact .refl s
    · exact (markTop_mild s _).trans (remarked_log _ _ _).mild
  · split
    · exact (setState_mild s _).trans (remarked_log _ _ _).mild
    · split
      · exact .same rfl rfl
      · exact .refl s

theorem resume_mild (s : Session σ τ) : Mild s s.resume := by
  unfold resume
  split
  · exact (setState_mild s _).trans (remarked_log _ _ _).mild
  · split
    · exact .same rfl rfl
    · exact .refl s

/-- A call that does not take every frame off at once. -/
theorem perform_mild (b : Bridge τ) (s : Session σ τ) {c : Control} (hc : c ≠ .stop false) :
    Mild s (c.perform b s).2 := by
  cases c with
  | run node count => exact (run_starts b s node count).mild
  | runByName name count => exact (runByName_starts b s (.text name) count).mild
  | pause atNextLoop => exact pause_mild s atNextLoop
  | resume => exact resume_mild s
  | stop atNextLoop =>
    cases atNextLoop with
    | false => exact absurd rfl hc
    | true =>
      dsimp only [Control.perform, stop]
      split
      · exact .refl s
      · exact (markTop_mild s _).trans (remarked_log _ _ _).mild

/-- No control call has come in or returned. -/
def Unsteered (s s' : Session σ τ) : Prop :=
  ∃ es : List Event, (∀ e ∈ es, ¬e.isControl) ∧ s'.journal = es ++ s.journal

theorem Unsteered.refl (s : Session σ τ) : Unsteered s s := ⟨[], by simp, rfl⟩

theorem Unsteered.trans (h : Unsteered s s') (h' : Unsteered s' s'') : Unsteered s s'' := by
  obtain ⟨es, he, hj⟩ := h
  obtain ⟨es', he', hj'⟩ := h'
  exact ⟨es' ++ es, List.forall_mem_append.2 ⟨he', he⟩, by rw [hj', hj, List.append_assoc]⟩

theorem Mild.unsteered (h : Mild s s') : Unsteered s s' := by
  obtain ⟨-, es, he, hj⟩ := h
  exact ⟨es, fun e hm => Event.quiet_of_isMild (he e hm), hj⟩

theorem pop_unsteered (s : Session σ τ) (f : Frame τ) (r : FrameResult) :
    Unsteered s (s.pop f r) := by
  rw [pop_eq]
  exact ⟨_, fun e hm => (popNews_quiet s f r e hm).1, rfl⟩

theorem halt_unsteered (s : Session σ τ) : Unsteered s s.halt :=
  clear_of_pop .refl (fun _ _ _ => .trans) (fun s f => pop_unsteered s f .stopped)
    { s with stopEvent := true }

theorem perform_unsteered (b : Bridge τ) (s : Session σ τ) (c : Control) :
    Unsteered s (c.perform b s).2 := by
  by_cases hc : c = .stop false
  · subst hc
    dsimp only [Control.perform, stop]
    split
    · exact .refl s
    · exact (halt_unsteered s).trans (remarked_log _ _ _).mild.unsteered
  · exact (perform_mild b s hc).unsteered

/-- A control call is all that can be read off its own reports. -/
theorem apply_calls (b : Bridge τ) (s : Session σ τ) (c : Control) :
    ∃ es, (c.apply b s).journal = es ++ s.journal ∧ Journal.calls es = [c] := by
  obtain ⟨es, he, hj⟩ := perform_unsteered b (s.record (.calling c)) c
  refine ⟨_, apply_journal hj, ?_⟩
  rw [Journal.calls_append]
  simp [Journal.calls, Journal.calls_of_quiet he]

end Session

end Macros
