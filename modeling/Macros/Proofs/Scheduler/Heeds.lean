import Macros.Proofs.Scheduler.Asked
import Macros.Proofs.Scheduler.Driver
import Macros.Proofs.Scheduler.Planned

/-!
Requests that come in while a line is under way are followed at once, by every control call, every
start and every report that the line leads to.
-/

namespace Macros

namespace Session

open Journal

variable {σ τ : Type} {o : Oracle σ τ} {b : Bridge τ} {s s' s'' : Session σ τ}

/-- A line is under way, in a run that goes on or is stepped. -/
def Live (s : Session σ τ) : Prop := (s.state = .running ∨ s.state = .paused) ∧ s.stack ≠ []

/-- Which frames are to be paused at their next loop line. -/
def marks (s : Session σ τ) : List (Nat × Bool) := s.stack.map fun f => (f.id, f.pauseAtLoop)

/-- Requests are followed while the line is under way. -/
def Heeds (s s' : Session σ τ) : Prop :=
  ∃ es, s'.journal = es ++ s.journal ∧
    (OnlyRequests es → s.Live → s'.Live ∧ s'.state = held s.state es ∧ s.marks <+: s'.marks)

theorem Heeds.trans (h : Heeds s s') (h' : Heeds s' s'') : Heeds s s'' := by
  obtain ⟨es, hj, hk⟩ := h
  obtain ⟨es', hj', hk'⟩ := h'
  refine ⟨es' ++ es, by rw [hj', hj, List.append_assoc], fun hr hl => ?_⟩
  obtain ⟨h1, h2, h3⟩ := hk hr.of_append.2 hl
  obtain ⟨h4, h5, h6⟩ := hk' hr.of_append.1 h1
  exact ⟨h4, by rw [h5, h2, held_append], h3.trans h6⟩

/-- Reports that have no bearing on the run state. -/
def Calm (s s' : Session σ τ) : Prop :=
  ∃ es : List Event, (∀ e ∈ es, e.isNeutral) ∧ s'.journal = es ++ s.journal

theorem Calm.heeds (h : Calm s s') (hs : s'.state = s.state) (hm : s'.marks = s.marks) :
    Heeds s s' := by
  obtain ⟨es, he, hj⟩ := h
  refine ⟨es, hj, fun _ hl => ⟨⟨by rw [hs]; exact hl.1, ?_⟩, ?_, hm ▸ List.prefix_refl _⟩⟩
  · intro hn
    have : s.marks = [] := by rw [← hm, marks, hn]; rfl
    exact hl.2 (List.map_eq_nil_iff.1 this)
  · rw [hs, held_of_neutral he]

theorem Calm.refl (s : Session σ τ) : Calm s s := ⟨[], by simp, rfl⟩

theorem Calm.trans (h : Calm s s') (h' : Calm s' s'') : Calm s s'' := by
  obtain ⟨es, he, hj⟩ := h
  obtain ⟨es', he', hj'⟩ := h'
  exact ⟨es' ++ es, List.forall_mem_append.2 ⟨he', he⟩, by rw [hj', hj, List.append_assoc]⟩

theorem calm_record (s : Session σ τ) {e : Event} (he : e.isNeutral) : Calm s (s.record e) :=
  ⟨[e], by simpa using he, rfl⟩

theorem Remarked.calm (h : Remarked s s') : Calm s s' := by
  obtain ⟨es, he, rfl⟩ := h
  exact ⟨es, fun e hm => Event.isNeutral_of_isRemark (he e hm), rfl⟩

theorem Remarked.state (h : Remarked s s') : s'.state = s.state := by
  obtain ⟨es, -, rfl⟩ := h
  rfl

theorem Remarked.heeds (h : Remarked s s') : Heeds s s' :=
  h.calm.heeds h.state (by rw [marks, marks, h.stack])

theorem setState_calm (s : Session σ τ) (x : RunState) : Calm s (s.setState x) := by
  rw [setState_eq]
  refine ⟨_, fun e he => ?_, rfl⟩
  rw [stateNews_cases he]
  rfl

theorem pop_calm (s : Session σ τ) (f : Frame τ) (r : FrameResult) : Calm s (s.pop f r) := by
  rw [pop_eq]
  refine ⟨_, fun e he => ?_, rfl⟩
  obtain ⟨_, rfl⟩ | rfl | rfl | ⟨_, _, rfl⟩ | rfl | rfl := popNews_cases he <;> rfl

theorem perform_reports (b : Bridge τ) (h : s.Sound) (c : Control) :
    Reports (s.record (.calling c)) (c.perform b (s.record (.calling c))).2 := by
  by_cases hc : c = .stop false
  · subst hc
    exact (stop_spec (o := .still)
      (s := s.record (.calling (.stop false))) (h.of_eq rfl rfl rfl rfl)).2.1
  · exact (perform_meanwhile (o := .still) b hc).reports

/-- A call that is no request may do what it wants. -/
theorem apply_heeds_of_not_request (h : s.Sound) {c : Control} (hc : ¬c.isRequest) :
    Heeds s (c.apply b s) := by
  obtain ⟨es, -, hj⟩ := perform_reports b h c
  exact ⟨_, apply_journal hj, fun hr => absurd (hr (.calling c) (by simp)) hc⟩

theorem push_heeds (s : Session σ τ) (node : NodeId) (text : String) (work : Work τ) :
    Heeds s (s.push node text work) := by
  refine ⟨s.pushNews (s.newFrame node text work), by rw [push_eq], fun _ hl => ?_⟩
  have hn : s.state ≠ .notReady := by rcases hl.1 with h | h <;> simp [h]
  rw [push_eq]
  refine ⟨⟨by simp [hn], by simp⟩, ?_, ?_⟩
  · by_cases hr : s.state = .running <;> simp [pushNews, hn, hr, held, Event.asks]
  · rw [marks, marks, List.map_append]
    exact List.prefix_append _ _

/-- The return of a call, when the session is as the call has asked for. -/
theorem called_heeds {c : Control} {p : Bool}
    (h : s.Live → ∀ x, (Event.called c p).asks = some x → s.state = x) :
    Heeds s (s.record (.called c p)) := by
  refine ⟨[.called c p], rfl, fun _ hl => ⟨hl, ?_, List.prefix_refl _⟩⟩
  cases ha : (Event.called c p).asks with
  | none => simp [held, ha, record]
  | some x => simp [held, ha, record, h hl x ha]

theorem calling_heeds (s : Session σ τ) (c : Control) : Heeds s (s.record (.calling c)) :=
  (calm_record s rfl).heeds rfl rfl

theorem Starts.heeds {p : Bool} (h : Starts s p s') : Heeds s s' := by
  cases h with
  | nothing h => exact h.heeds
  | pushed h node text work => exact h.heeds.trans (push_heeds _ node text work)

theorem Starts.running (h : Starts s true s') (hl : s'.Live) : s'.state = .running := by
  cases h with
  | pushed h node text work =>
    rw [push_eq] at hl ⊢
    have := hl.1
    dsimp only at this ⊢
    split
    · next hn => simp [hn] at this
    · rfl

theorem Starts.called_heeds {p : Bool} {c : Control} (h : Starts s p s')
    (hc : ∀ p, (Event.called c p).asks = if p then some .running else none) :
    Heeds s (s'.record (.called c p)) := by
  refine h.heeds.trans (Session.called_heeds fun hl x hx => ?_)
  rw [hc p] at hx
  cases p with
  | false => simp at hx
  | true => rw [← Option.some.inj hx]; exact h.running hl

/-- A call that changes nothing but the run state. -/
theorem asked_heeds {c : Control} {x : RunState} (ha : (Event.called c false).asks = some x)
    (hx : x = .running ∨ x = .paused) (hc : Calm s s') (hm : s'.marks = s.marks)
    (hs : s.Live → s'.state = x) : Heeds s (s'.record (.called c false)) := by
  obtain ⟨es, he, hj⟩ := hc
  refine ⟨.called c false :: es, by simp [record, hj], fun _ hl => ⟨⟨?_, ?_⟩, ?_, ?_⟩⟩
  · rw [show (s'.record _).state = s'.state from rfl, hs hl]
    exact hx
  · intro hn
    have : s.marks = [] := by rw [← hm, marks, show s'.stack = [] from hn]; rfl
    exact hl.2 (List.map_eq_nil_iff.1 this)
  · rw [show (s'.record _).state = s'.state from rfl, hs hl]
    simp [held, ha]
  · rw [← hm]
    exact List.prefix_refl _

theorem pause_heeds (s : Session σ τ) : Heeds s (s.pauseNow.record (.called (.pause false) false)) := by
  refine asked_heeds rfl (.inr rfl) ?_ ?_ ?_
  · unfold pauseNow
    split
    · exact (setState_calm s _).trans (remarked_log _ _ _).calm
    · split
      · exact .refl s
      · exact .refl s
  · unfold pauseNow
    split
    · rw [setState_eq]; rfl
    · split <;> rfl
  · intro hl
    unfold pauseNow
    rcases hl.1 with h | h
    · rw [if_pos h, setState_eq]; rfl
    · simp [h]

theorem resume_heeds (s : Session σ τ) : Heeds s (s.resume.record (.called .resume false)) := by
  refine asked_heeds rfl (.inl rfl) ?_ ?_ ?_
  · unfold resume
    split
    · exact (setState_calm s _).trans (remarked_log _ _ _).calm
    · split
      · exact .refl s
      · exact .refl s
  · unfold resume
    split
    · rw [setState_eq]; rfl
    · split <;> rfl
  · intro hl
    unfold resume
    rcases hl.1 with h | h
    · simp [h]
    · rw [if_pos (by simp [h, hl.2]), setState_eq]; rfl

theorem apply_heeds (h : s.Sound) (c : Control) : Heeds s (c.apply b s) := by
  have h1 := calling_heeds s c
  cases c with
  | run node count =>
    exact h1.trans ((run_starts b _ node count).called_heeds fun p => by cases p <;> rfl)
  | runByName name count =>
    exact h1.trans ((runByName_starts b _ (.text name) count).called_heeds
      fun p => by cases p <;> rfl)
  | pause atNextLoop =>
    cases atNextLoop with
    | false => exact h1.trans (pause_heeds _)
    | true => exact apply_heeds_of_not_request h (by simp [Control.isRequest])
  | resume => exact h1.trans (resume_heeds _)
  | stop => exact apply_heeds_of_not_request h (by simp [Control.isRequest])

theorem heeds (b : Bridge τ) (o : Oracle σ τ) : Respects b o Heeds where
  refl s := (Calm.refl s).heeds rfl rfl
  trans := .trans
  client s _ := (Calm.refl s).heeds rfl rfl
  control c h := apply_heeds h c
  start name _ _ := (runNested_starts b _ name).elim fun _ hp => hp.heeds
  remark h := h.heeds

end Session

end Macros
