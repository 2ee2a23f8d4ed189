import Macros.Proofs.Scheduler.Answers
import Macros.Proofs.Scheduler.Planned

/-!
Requests that come in while a line is under way. A pause, a resume or a start holds until the next
one, also past the end of the line; only a step goes back to being paused whatever was asked for.
-/

namespace Macros

namespace Session

open Journal

variable {σ τ : Type} {o : Oracle σ τ} {b : Bridge τ} {s s' s'' : Session σ τ} {P : Prop}

/-! A client that becomes unavailable is noticed only before and after a line. -/

/-- Nobody but the driver enters the state of not being ready. -/
def StaysReady (s s' : Session σ τ) : Prop := s.state ≠ .notReady → s'.state ≠ .notReady

theorem setState_staysReady (s : Session σ τ) {x : RunState} (hx : x ≠ .notReady) :
    StaysReady s (s.setState x) := by
  rw [setState_eq]
  exact fun _ => hx

theorem Remarked.staysReady (h : Remarked s s') : StaysReady s s' := fun hr => by
  rw [h.state]
  exact hr

theorem Starts.staysReady {p : Bool} (h : Starts s p s') : StaysReady s s' := by
  cases h with
  | nothing h => exact h.staysReady
  | pushed h node text work =>
    intro hr
    rw [push_eq]
    dsimp only
    rw [if_neg (h.staysReady hr)]
    simp

theorem pop_staysReady (s : Session σ τ) (f : Frame τ) (r : FrameResult) :
    StaysReady s (s.pop f r) := by
  intro hr
  rw [pop_eq]
  dsimp only
  split
  · simp
  · exact hr

theorem halt_staysReady (s : Session σ τ) : StaysReady s s.halt :=
  clear_of_pop (fun _ h => h) (fun _ _ _ h h' hr => h' (h hr))
    (fun s f => pop_staysReady s f .stopped) { s with stopEvent := true }

theorem stop_staysReady (s : Session σ τ) (atLoop : Bool) : StaysReady s (s.stop atLoop) := by
  unfold stop
  split
  · exact fun h => h
  · split
    · unfold markTop
      split <;> exact fun h => h
    · exact halt_staysReady s

theorem perform_staysReady (b : Bridge τ) (s : Session σ τ) (c : Control) :
    StaysReady s (c.perform b s).2 := by
  cases c with
  | run node count => exact (run_starts b s node count).staysReady
  | runByName name count => exact (runByName_starts b s (.text name) count).staysReady
  | pause atNextLoop =>
    dsimp only [Control.perform, pause]
    split
    · unfold pauseAtLoop markTop
      split
      · exact fun h => h
      · split <;> exact fun h => h
    · unfold pauseNow
      split
      · exact setState_staysReady s (by simp)
      · split <;> exact fun h => h
  | resume =>
    dsimp only [Control.perform, resume]
    split
    · exact setState_staysReady s (by simp)
    · split <;> exact fun h => h
  | stop atNextLoop => exact stop_staysReady s atNextLoop

theorem staysReady (b : Bridge τ) (o : Oracle σ τ) : Respects b o StaysReady where
  refl _ h := h
  trans h h' hr := h' (h hr)
  client _ _ h := h
  control {s} c _ := perform_staysReady b (s.record (.calling c)) c
  start name _ _ := (runNested_starts b _ name).elim fun _ hp => hp.staysReady
  remark h := h.staysReady

/-! The run state after a tick or a step. -/

/-- A line has not begun, so nothing can have been asked for since. -/
theorem request_of_reports (h : Reports s' s) : request (s.news s') = none := by
  obtain ⟨es, -, hj⟩ := h
  rw [news, hj, List.length_append, Nat.sub_eq_zero_of_le (Nat.le_add_left _ _)]
  rfl

theorem request_of_calm (h : Calm s s') : request (s.news s') = none := by
  obtain ⟨es, he, hj⟩ := h
  rw [news_eq hj]
  simpa [request] using request_append he []

/-- A line that begins when the client is there. -/
theorem advance_kept (h : s.Sound) (hn : s.state ≠ .notReady) :
    ∃ es, (s.advance (.ofOracle b o) b).2.journal = es ++ s.journal ∧
      ∀ q, OnlyRequests es → request es = some q →
        Kept q (PausedByLoop s es) (s.advance (.ofOracle b o) b).2 := by
  by_cases he : s.stack = []
  · -- without a frame there is no line
    have hc : Calm s (s.advance (.ofOracle b o) b).2 := by
      unfold advance advanceTop top? Session.begin
      by_cases hf : s.freshRun <;> simp [hf, he] <;> exact setState_calm _ _
    have hn := request_of_calm hc
    obtain ⟨es, -, hj⟩ := hc
    exact ⟨es, hj, fun q _ hq => by simp [← news_eq hj, hn] at hq⟩
  · obtain ⟨es, hj, hk⟩ := advance_answers (o := o) (b := b) h
    have hl : s.Live := by
      refine ⟨?_, he⟩
      have hi : s.state ≠ .idle := fun h' => he (h.idle_iff.1 h')
      cases hst : s.state <;> simp_all
    refine ⟨es, hj, fun q hr hq => ?_⟩
    have h1 := hk hr hl
    rwa [held_of_request hq] at h1

/-- A step goes back to being paused. -/
theorem Kept.repaused {x : RunState} (h : Kept x P s) (hx : x = .running ∨ x = .paused)
    (hp : s.state = .running → s' = s.setState .paused) (hn : s.state ≠ .running → s' = s) :
    (s'.stack = [] ∧ s'.state = .idle) ∨ (s'.state = .notReady ∧ s'.prior = x) ∨
      s'.state = .paused := by
  by_cases hr : s.state = .running
  · rw [hp hr, setState_eq]
    exact .inr (.inr rfl)
  · rw [hn hr]
    rcases h with h | h | h | h
    · exact .inl h
    · exact .inr (.inl h)
    · exact .inr (.inr h.2)
    · exact .inr (.inr (h.trans (hx.resolve_left (by rwa [← h]))))

theorem tick_kept (h : s.Sound) {q : RunState}
    (hr : OnlyRequests ((s.tickStart (.ofOracle b o)).news (s.tick (.ofOracle b o) b).2))
    (hq : request ((s.tickStart (.ofOracle b o)).news (s.tick (.ofOracle b o) b).2) = some q) :
    Kept q (PausedByLoop (s.tickStart (.ofOracle b o))
      ((s.tickStart (.ofOracle b o)).news (s.tick (.ofOracle b o) b).2))
      (s.tick (.ofOracle b o) b).2 := by
  have h1 := Changes.sound (recover_changes (o := o) (b := b) h) h
  have h2 := tickStart_meanwhile (o := o) (b := b) h
  have h3 : StaysReady (s.recover (.ofOracle b o)) (s.tickStart (.ofOracle b o)) :=
    (staysReady b o).respond .ready h1
  rcases tick_cases (.ofOracle b o) b s with ⟨-, ht⟩ | ⟨-, ht⟩ | ⟨hst, ht⟩
  · rw [ht, request_of_reports h2.reports] at hq
    simp at hq
  · rw [ht, request_of_calm (enterNotReady_ends (P := False) _).calm] at hq
    simp at hq
  · obtain ⟨es, hj, hk⟩ := advance_kept (o := o) (b := b) (h2.changes.sound h1) (h3 (by simp [hst]))
    rw [ht, news_eq hj] at hr hq ⊢
    exact hk q hr hq

theorem step_kept (h : s.Sound) {q : RunState} (ha : (s.step (.ofOracle b o) b).1.isOk)
    (hr : OnlyRequests ((s.stepStart (.ofOracle b o)).news (s.step (.ofOracle b o) b).2))
    (hq : request ((s.stepStart (.ofOracle b o)).news (s.step (.ofOracle b o) b).2) = some q) :
    ((s.step (.ofOracle b o) b).2.stack = [] ∧ (s.step (.ofOracle b o) b).2.state = .idle) ∨
      ((s.step (.ofOracle b o) b).2.state = .notReady ∧
        (s.step (.ofOracle b o) b).2.prior = q) ∨
      (s.step (.ofOracle b o) b).2.state = .paused := by
  have h2 := stepStart_meanwhile (o := o) (b := b) h
  have h3 : StaysReady s (s.stepStart (.ofOracle b o)) := (staysReady b o).respond .ready h
  have hs := h2.changes.sound h
  rcases step_cases (.ofOracle b o) b s with
    ht | ⟨-, ht⟩ | ⟨-, e, s', -, ht⟩ | ⟨hst, a', s', hadv, ht⟩
  · rw [ht, request_of_reports h2.reports] at hq
    simp at hq
  · rw [ht, request_of_calm (enterNotReady_ends (P := False) _).calm] at hq
    simp at hq
  · rw [ht] at ha
    simp [Except.isOk, Except.toBool] at ha
  · obtain ⟨es, hj, hk⟩ := advance_kept (o := o) (b := b) hs (h3 (by simp [hst]))
    have hs' := (advance_changes (o := o) (b := b) hs).sound hs
    rw [hadv] at hj hk hs'
    have hc : Calm s' (if s'.state = .running && !s'.stack.isEmpty then s'.setState .paused
        else s') := by
      split
      · exact setState_calm s' _
      · exact .refl s'
    obtain ⟨es', hn, hj'⟩ := hc
    rw [show s'.journal = _ from hj, ← List.append_assoc] at hj'
    rw [ht] at hr hq ⊢
    rw [news_eq hj'] at hr hq
    rw [request_append hn] at hq
    refine (hk q hr.of_append.2 hq).repaused (request_cases hq) (fun hp => ?_) fun hp => ?_
    · have he : s'.stack ≠ [] := fun he => by simp [show s'.state = _ from hs'.idle_iff.2 he] at hp
      simp [show s'.state = _ from hp, he]
    · simp [show ¬s'.state = _ from hp]

/-- The last request that comes in while the line of a tick or a step is under way decides the run
state, if the line itself starts no macro afterwards. A tick leaves the run as it was asked for; a
step leaves it paused. -/
theorem request_kept (b : Bridge τ) (o : Oracle σ τ) {s : Session σ τ}
    (h : s.Reachable (.ofOracle b o) b) (q : RunState) :
    (∀ s', (s.tick (.ofOracle b o) b).2 = s' →
      OnlyRequests ((s.tickStart (.ofOracle b o)).news s') →
      request ((s.tickStart (.ofOracle b o)).news s') = some q →
      (s'.stack = [] ∧ s'.state = .idle) ∨ (s'.state = .notReady ∧ s'.prior = q) ∨
        (PausedByLoop (s.tickStart (.ofOracle b o)) ((s.tickStart (.ofOracle b o)).news s') ∧
          s'.state = .paused) ∨ s'.state = q) ∧
    ∀ s', (s.step (.ofOracle b o) b).2 = s' → (s.step (.ofOracle b o) b).1.isOk →
      OnlyRequests ((s.stepStart (.ofOracle b o)).news s') →
      request ((s.stepStart (.ofOracle b o)).news s') = some q →
      (s'.stack = [] ∧ s'.state = .idle) ∨ (s'.state = .notReady ∧ s'.prior = q) ∨
        s'.state = .paused := by
  constructor
  · rintro s' rfl hr hq
    exact tick_kept h.sound hr hq
  · rintro s' rfl ha hr hq
    exact step_kept h.sound ha hr hq

/-- Two lines are to be sent. While the first is sent the user resumes and then pauses; while the
second is sent, in a step, the user resumes. -/
def sending : Session Plan Lines :=
  (Session.waiting [.native "A" "/send X\n/send Y\n/send Z"]
    [(true, []), (true, [.resume, .pause false]), (true, []), (true, [.resume])]).operate
    (.ofOracle (.listed []) .planned) (.listed []) [.control (.runByName "A" none)]

/-- The session after the first line. -/
def sentOnce : Session Plan Lines := (sending.tick (.ofOracle (.listed []) .planned) (.listed [])).2

/-- The session after the second line. -/
def sentTwice : Session Plan Lines :=
  (sentOnce.step (.ofOracle (.listed []) .planned) (.listed [])).2

theorem request_kept_while_sending :
    ((sentOnce.stack = [] ∧ sentOnce.state = .idle) ∨
      (sentOnce.state = .notReady ∧ sentOnce.prior = .paused) ∨
      (PausedByLoop (sending.tickStart (.ofOracle (.listed []) .planned))
        ((sending.tickStart (.ofOracle (.listed []) .planned)).news sentOnce) ∧
        sentOnce.state = .paused) ∨ sentOnce.state = .paused) ∧
    ((sentTwice.stack = [] ∧ sentTwice.state = .idle) ∨
      (sentTwice.state = .notReady ∧ sentTwice.prior = .running) ∨ sentTwice.state = .paused) := by
  have h : sending.Reachable (.ofOracle (.listed []) .planned) (.listed []) :=
    .operate (.idle ..) _
  constructor
  · exact (request_kept (.listed []) .planned h .paused).1 sentOnce rfl (by decide +kernel)
      (by decide +kernel)
  · exact (request_kept (.listed []) .planned (h.after .tick) .running).2 sentTwice rfl
      (by decide +kernel) (by decide +kernel) (by decide +kernel)

/-- A step is left paused though a resume came in last; and a run goes on though a pause came in last,
before a script started a macro. -/
theorem request_overridden :
    (lastAsked ((sentOnce.stepStart (.ofOracle (.listed []) .planned)).news sentTwice) =
        some .running ∧ sentTwice.state = .paused ∧
      sentTwice.stack.map (·.pauseAtLoop) = [false]) ∧
    let b := Bridge.listed [(1, "/runmacro A")]
    let s : Session Plan Lines := (Session.waiting [.native "A" "/send X", .script "S"]
      [(true, []), (true, [.pause false])]).operate (.ofOracle b .planned) b
        [.control (.runByName "S" none)]
    lastAsked ((s.tickStart (.ofOracle b .planned)).news (s.tick (.ofOracle b .planned) b).2) =
        some .paused ∧
      (s.tick (.ofOracle b .planned) b).2.state = .running := by
  refine ⟨⟨?_, ?_, ?_⟩, ?_, ?_⟩
  · decide +kernel
  · decide +kernel
  · decide +kernel
  · decide +kernel
  · decide +kernel

end Session

end Macros
