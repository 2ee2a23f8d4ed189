import Macros.Proofs.Scheduler.Calls
import Macros.Proofs.Scheduler.Flight

/-!
The stop that the executor looks for. It is set when a stop takes frames off, and forgotten when a
run that was started afterwards first advances: so a line of a run that goes on never sees an
earlier stop, and one that was stopped sees its stop until it has landed.
-/

namespace Macros

/-- A frame is taken off because everything is stopped. -/
def Event.haltsFrame : Event → Bool
  | popped _ .stopped => true
  | _ => false

theorem Event.not_haltsFrame_of_isMild {e : Event} (h : e.isMild) : ¬e.haltsFrame := by
  cases e <;> first | exact Bool.false_ne_true | cases h

namespace Session

open Relation

variable {σ τ : Type} {o : Oracle σ τ} {b : Bridge τ} {s s' s'' : Session σ τ} {l : Flight σ τ}

/-- A stop that is set has left nothing behind, or only a run that has not advanced yet. -/
def Spent (s : Session σ τ) : Prop := s.stopEvent = true → s.stack = [] ∨ s.freshRun = true

theorem Spent.of_eq (h : s.Spent) (he : s'.stopEvent = s.stopEvent)
    (hf : s'.freshRun = s.freshRun) (hs : s.stack = [] → s'.stack = []) : s'.Spent := fun hx => by
  rw [hf]
  exact (h (he ▸ hx)).imp_left hs

theorem Change.spent (hc : Change o s s') (h : s.Spent) : s'.Spent := by
  cases hc with
  | client | remark | calling | called | hand | send | foresee | close | edit =>
    exact h.of_eq rfl rfl id
  | push node text work =>
    rw [push_eq]
    intro hx
    rcases h hx with hs | hf
    · exact .inr (by simp [hs])
    · exact .inr (by simp [hf])
  | pop f r =>
    rw [pop_eq]
    exact h.of_eq rfl rfl fun hs => by simp [without, hs]
  | mark | goTo | passLoop | script =>
    exact h.of_eq rfl rfl fun hs => by simp [modifyNative, modifyScript, Session.modify, hs]
  | pause | resume | leave | rest =>
    rw [setState_eq]
    exact h.of_eq rfl rfl id
  | await =>
    rw [setState_eq]
    exact h.of_eq rfl rfl id
  | halt hs => exact fun _ => .inl hs
  | clear => exact fun hx => by simp at hx

theorem Changes.spent (hc : Changes o s s') (h : s.Spent) : s'.Spent := by
  induction hc with
  | refl => exact h
  | tail _ hc ih => exact hc.spent ih

theorem Reachable.spent (h : s.Reachable (.ofOracle b o) b) : s.Spent := by
  obtain ⟨tree, settings, registry, client, hc⟩ := h.changes
  exact hc.spent fun hx => by simp [Session.idle] at hx

/-- Where a run advances no stop is set. -/
theorem Spent.begin (h : s.Spent) (hs : s.begin.stack ≠ []) : s.begin.stopEvent = false := by
  unfold Session.begin at hs ⊢
  split at hs
  · next hf => rw [if_pos hf]
  · next hf =>
    rw [if_neg hf, Bool.eq_false_iff]
    intro hx
    rcases h hx with hs' | hf'
    · exact hs hs'
    · exact hf hf'

/-! While the driver waits, a stop is set by a stop that comes in, and by nothing else. -/

structure Signals (s s' : Session σ τ) : Prop where
  /-- A frame has been taken off as stopped only if the stop is set. -/
  pops : ∃ es, s'.journal = es ++ s.journal ∧ ((∃ e ∈ es, e.haltsFrame) → s'.stopEvent = true)
  kept : s.stopEvent = true → s'.stopEvent = true
  cause : s'.stopEvent = true → s.stopEvent = true ∨ StopCame s s'

theorem Signals.of_eq (es : List Event) (he : s'.stopEvent = s.stopEvent)
    (hj : s'.journal = es ++ s.journal) (hn : ∀ e ∈ es, ¬e.haltsFrame) : Signals s s' where
  pops := ⟨es, hj, fun ⟨e, hm, he⟩ => absurd he (hn e hm)⟩
  kept hx := he.trans hx
  cause hx := .inl (he ▸ hx)

theorem Signals.refl (s : Session σ τ) : Signals s s := .of_eq [] rfl rfl (by simp)

theorem StopCame.of_suffix (h : StopCame s s') (hj : s'.journal <:+ s''.journal) :
    StopCame s s'' := by
  obtain ⟨es, x, hx, he⟩ := h
  obtain ⟨es', hj⟩ := hj
  exact ⟨es' ++ es, x, by simp [hx], by rw [← hj, he, List.append_assoc]⟩

theorem StopCame.since (hj : s.journal <:+ s'.journal) (h : StopCame s' s'') :
    StopCame s s'' := by
  obtain ⟨es, hj⟩ := hj
  obtain ⟨es', x, hx, he⟩ := h
  exact ⟨es' ++ es, x, by simp [hx], by rw [he, ← hj, List.append_assoc]⟩

theorem Signals.trans (h : Signals s s') (h' : Signals s' s'') : Signals s s'' := by
  obtain ⟨es, hj, hp⟩ := h.pops
  obtain ⟨es', hj', hp'⟩ := h'.pops
  refine ⟨⟨es' ++ es, by rw [hj', hj, List.append_assoc], fun ⟨e, hm, he⟩ => ?_⟩,
    fun hx => h'.kept (h.kept hx), fun hx => ?_⟩
  · rcases List.mem_append.1 hm with hm | hm
    · exact hp' ⟨e, hm, he⟩
    · exact h'.kept (hp ⟨e, hm, he⟩)
  · rcases h'.cause hx with hx | hx
    · exact (h.cause hx).imp_right fun hc => hc.of_suffix ⟨es', hj'.symm⟩
    · exact .inr (hx.since ⟨es, hj.symm⟩)

theorem Mild.signals (h : Mild s s') : Signals s s' := by
  obtain ⟨hx, es, he, hj⟩ := h
  exact .of_eq _ hx hj fun e hm => Event.not_haltsFrame_of_isMild (he e hm)

/-- A stop that finds nothing to take off does nothing; any other sets the stop. -/
theorem stop_signals (h : s.Sound) :
    ∃ es, (s.stop false).journal = es ++ s.journal ∧
      ((∃ e ∈ es, e.haltsFrame) → (s.stop false).stopEvent = true) ∧
      (s.stopEvent = true → (s.stop false).stopEvent = true) := by
  obtain ⟨-, ⟨es, -, hj⟩, -⟩ := stop_spec (o := Oracle.still) h
  refine ⟨es, hj, ?_⟩
  unfold stop at hj ⊢
  split
  · next he =>
    simp only [he, ↓reduceIte] at hj
    obtain rfl : es = [] := by simpa using hj
    exact ⟨by simp, id⟩
  · have hx : (s.halt.log .info "Stopped").stopEvent = true := by
      rw [halt_eq]
      rfl
    exact ⟨fun _ => hx, fun _ => hx⟩

/-- A stop that finds a frame takes one off as stopped. -/
theorem stop_halts (hs : s.stack ≠ []) : ∃ e ∈ s.news (s.stop false), e.haltsFrame := by
  obtain ⟨f, fs, hr⟩ := List.exists_cons_of_ne_nil (mt List.reverse_eq_nil_iff.1 hs)
  obtain ⟨es, hj⟩ : (s.pop f .stopped).journal <:+ (s.clear .stopped).journal := by
    unfold clear
    rw [hr]
    exact popAll_journal_suffix fs .stopped (s.pop f .stopped)
  have hn : (s.stop false).journal =
      (Event.log .info (.text "Stopped") :: es ++ s.popNews f .stopped) ++ s.journal := by
    have he : s.stop false = s.halt.log .info "Stopped" := by simp [stop, hs]
    rw [he, halt_eq, List.append_assoc, List.cons_append]
    rw [pop_eq] at hj
    exact congrArg _ hj.symm
  rw [news_eq hn]
  exact ⟨.popped f.id .stopped, by simp [popNews], rfl⟩

theorem apply_signals (b : Bridge τ) (c : Control) (h : s.Sound) : Signals s (c.apply b s) := by
  have h1 : Signals s (s.record (.calling c)) :=
    .of_eq [.calling c] rfl rfl (by simp [Event.haltsFrame])
  have h2 : ∀ t : Session σ τ, ∀ p, Signals t (t.record (.called c p)) := fun t p =>
    .of_eq [.called c p] rfl rfl (by simp [Event.haltsFrame])
  by_cases hc : c = .stop false
  · subst hc
    obtain ⟨es, hj, hp, hk⟩ := stop_signals (s := s.record (.calling (.stop false)))
      (h.of_eq rfl rfl rfl rfl)
    have hj' : (Control.apply b (.stop false) s).journal =
        (Event.called (.stop false) false :: es ++ [Event.calling (.stop false)]) ++ s.journal :=
      apply_journal hj
    exact ⟨⟨_, hj', fun hm => hp (by simpa [Event.haltsFrame] using hm)⟩, hk,
      fun _ => .inr ⟨_, false, by simp, hj'⟩⟩
  · exact h1.trans ((perform_mild b _ hc).signals.trans (h2 _ _))

theorem signals (b : Bridge τ) (o : Oracle σ τ) : Respects b o Signals where
  refl := .refl
  trans := .trans
  client _ _ := .of_eq [] rfl rfl (by simp)
  control c h := apply_signals b c h
  start name _ _ := (runNested_starts b _ name).elim fun _ hp => hp.mild.signals
  remark h := h.mild.signals

/-! From the beginning of an advance to the landing of its line. -/

theorem Worked.stopEvent (h : Worked s s') : s'.stopEvent = s.stopEvent := by
  obtain ⟨fs, es, -, -, rfl⟩ := h
  rfl

/-- A line is handed over while no stop is set, unless one came in while its script was resumed. -/
theorem flight_stopCame (h : s.Sound) (hp : s.Spent) (hl : s.flight? (.ofOracle b o) b = some l)
    (hx : l.session.stopEvent = true) : StopCame s l.session := by
  obtain ⟨ht, n, t, hr, hr'⟩ := flight_readied hl
  have hb : s.begin.Sound := (begin_changes (o := o) s).sound h
  have hs : t.Sound := hr.sound hb
  have h0 : t.stopEvent = false := by
    rw [hr.worked.stopEvent]
    exact hp.begin fun he => by simp [top?, he] at ht
  have h1 := (signals b o).hostCalls n hs
  rcases h1.cause (hr'.worked.stopEvent ▸ hx) with hx | hc
  · simp [h0] at hx
  · have hb := (begin_changes (o := o) s).journal_suffix
    exact (hc.of_suffix hr'.worked.suffix).since (hb.trans hr.worked.suffix)

/-- What holds of the stop at a moment, for an operation that began with the session `begun` and handed
its line over in the session `handed`. -/
structure Disciplined (begun handed now : Session σ τ) : Prop where
  /-- Without a stop since the operation began none is set. -/
  clear : (∀ e ∈ begun.news now, ¬e.stops) → now.stopEvent = false
  /-- A stop that has taken frames off since the line was handed over is set. -/
  kept : (∃ e ∈ handed.news now, e.haltsFrame) → now.stopEvent = true

theorem StopCame.news (h : StopCame s s') : ∃ e ∈ s.news s', e.stops := by
  obtain ⟨es, x, hx, hj⟩ := h
  exact ⟨_, by rwa [news_eq hj], rfl⟩

/-- The discipline follows from what happened since the line was handed over. -/
theorem Signals.disciplined {e : Event} {now : Session σ τ}
    (hj : s.journal <:+ l.session.journal)
    (hx : l.session.stopEvent = true → StopCame s l.session) (he : ¬e.haltsFrame)
    (h : Signals (l.session.record e) now) : Disciplined s l.session now := by
  obtain ⟨es, hj', hp⟩ := h.pops
  have hj' : now.journal = (es ++ [e]) ++ l.session.journal := by rw [hj']; simp [record]
  constructor
  · intro hn
    rw [Bool.eq_false_iff]
    intro ht
    have hc : StopCame s now := by
      rcases h.cause ht with ht | hc
      · exact (hx ht).of_suffix ⟨_, hj'.symm⟩
      · exact hc.since (hj.trans (List.suffix_cons _ _))
    obtain ⟨e', hm, hs⟩ := hc.news
    exact hn e' hm hs
  · rw [news_eq hj']
    rintro ⟨e', hm, hs⟩
    rcases List.mem_append.1 hm with hm | hm
    · exact hp ⟨e', hm, hs⟩
    · rw [List.mem_singleton.1 hm] at hs
      exact absurd hs he

/-- Whenever a tick or a step hands a line over no stop is set, unless one has come in since the
operation began; and a stop that takes frames off while the line is under way stays set until
the line has landed, whatever comes in after it. -/
theorem stop_event_disciplined (b : Bridge τ) (o : Oracle σ τ) {s : Session σ τ}
    (h : s.Reachable (.ofOracle b o) b) {l : Flight σ τ}
    (hl : s.tickFlight? (.ofOracle b o) b = some l ∨ s.stepFlight? (.ofOracle b o) b = some l) :
    Disciplined s l.session l.session ∧
      (∀ m, l.Moment (.ofOracle b o) b m → Disciplined s l.session m) ∧
      Disciplined s l.session (l.landed (.ofOracle b o) b).2 := by
  obtain ⟨t, hc, ht⟩ := operation_flight h.sound hl
  have hs := hc.sound h.sound
  have hx : l.session.stopEvent = true → StopCame s l.session := fun hx =>
    (flight_stopCame hs (hc.spent h.spent) ht hx).since hc.journal_suffix
  obtain ⟨hf, hj, -⟩ := flight_spec hs ht
  have hj := hc.journal_suffix.trans hj
  have he : ¬(Event.handed l.frame.id l.line).haltsFrame := by simp [Event.haltsFrame]
  refine ⟨⟨fun hn => ?_, fun ⟨e, hm, _⟩ => ?_⟩, fun m hm => ?_, ?_⟩
  · rw [Bool.eq_false_iff]
    intro hx'
    obtain ⟨e, hm, hs⟩ := (hx hx').news
    exact hn e hm hs
  · rw [@news_eq _ _ l.session _ [] rfl] at hm
    simp at hm
  · exact (hm.respects (signals b o) (fun s x => .of_eq [] rfl rfl (by simp))
      hf).disciplined hj hx he
  · exact ((signals b o).perform hf l.frame l.line).disciplined hj hx he

/-- While the first line is sent everything is stopped, the macro is started again, and then paused
and resumed. -/
def halting : Session Plan Lines :=
  (Session.waiting [.native "A" "/send X\n/send Y"]
    [(true, []), (true, [.stop false, .runByName "A" none, .pause false, .resume])]).operate
    (.ofOracle (.listed []) .planned) (.listed []) [.control (.runByName "A" none)]

/-- The line that is stopped. -/
def haltedFlight : Flight Plan Lines :=
  (halting.tickFlight? (.ofOracle (.listed []) .planned) (.listed [])).get (by decide +kernel)

/-- The same line, handed over once more by the second run. -/
def renewedFlight : Flight Plan Lines :=
  (((halting.tick (.ofOracle (.listed []) .planned) (.listed [])).2).tickFlight?
    (.ofOracle (.listed []) .planned) (.listed [])).get (by decide +kernel)

theorem stop_kept_while_sending :
    (haltedFlight.landed (.ofOracle (.listed []) .planned) (.listed [])).2.stopEvent = true ∧
      (haltedFlight.landed (.ofOracle (.listed []) .planned) (.listed [])).2.stack.length = 1 ∧
      renewedFlight.session.stopEvent = false := by
  have h : halting.Reachable (.ofOracle (.listed []) .planned) (.listed []) :=
    .operate (.idle ..) _
  have h1 := stop_event_disciplined (.listed []) .planned h (l := haltedFlight)
    (.inl (Option.some_get _).symm)
  have h2 := stop_event_disciplined (.listed []) .planned (h.after .tick) (l := renewedFlight)
    (.inl (Option.some_get _).symm)
  refine ⟨h1.2.2.kept (by decide +kernel), by decide +kernel, h2.1.clear (by decide +kernel)⟩

end Session

end Macros
