import Macros.Proofs.Scheduler.Awaited
import Macros.Proofs.Scheduler.Calls
import Macros.Proofs.Scheduler.Flight

/-!
When frames are taken off, as a journal tells it. While the driver waits for a line or a script that is
only ever by a stop that is under way.
-/

namespace Macros

open Session

variable {σ τ : Type}

/-- A frame is taken off. -/
def Event.takesOff : Event → Bool
  | popped _ _ => true
  | _ => false

theorem Event.not_takesOff_of_isMild {e : Event} (h : e.isMild) : e.takesOff = false := by
  cases e <;> first | rfl | cases h

/-- A stop of everything has come in, and has not returned. -/
def Journal.Stopping (js : List Event) : Prop :=
  ∃ es ks, js = es ++ .calling (.stop false) :: ks ∧ ∀ e ∈ es, ¬e.isControl

namespace Session

variable {c : Client σ τ} {o : Oracle σ τ} {b : Bridge τ} {s s' s'' t u : Session σ τ} {f g : Frame τ}
  {l : Flight σ τ} {x : Outcome} {Q Q' : Nat → FrameResult → List Event → Prop}

/-- Since then frames have been taken off only as the rule says, which sees what had been told before. -/
structure PopsOnly (Q : Nat → FrameResult → List Event → Prop) (s s' : Session σ τ) : Prop where
  suffix : s.journal <:+ s'.journal
  rule : ∀ id r js, .popped id r :: js <:+ s'.journal → s.journal <:+ js → Q id r js

theorem PopsOnly.quiet (es : List Event) (hj : s'.journal = es ++ s.journal)
    (he : ∀ e ∈ es, e.takesOff = false) : PopsOnly Q s s' := by
  refine ⟨⟨es, hj.symm⟩, fun id r js h hs => ?_⟩
  obtain ⟨qs, rfl⟩ := hs
  obtain ⟨ps, hp⟩ := h
  have hes : es ++ s.journal = (ps ++ .popped id r :: qs) ++ s.journal := by
    rw [← hj, ← hp, List.append_assoc]
    rfl
  have := he (.popped id r) (by simp [List.append_cancel_right hes])
  cases this

theorem PopsOnly.refl (s : Session σ τ) : PopsOnly Q s s := .quiet [] rfl (by simp)

theorem PopsOnly.same (hj : s'.journal = s.journal) : PopsOnly Q s s' := .quiet [] hj (by simp)

theorem PopsOnly.trans (h : PopsOnly Q s s') (h' : PopsOnly Q s' s'') : PopsOnly Q s s'' := by
  refine ⟨h.suffix.trans h'.suffix, fun id r js hp hs => ?_⟩
  rcases List.suffix_or_suffix_of_suffix hp h'.suffix with hp' | hp'
  · exact h.rule id r js hp' hs
  · rcases List.suffix_cons_iff.1 hp' with he | hj
    · exact h.rule id r js (he ▸ List.suffix_refl _) hs
    · exact h'.rule id r js hp hj

theorem PopsOnly.mono (h : PopsOnly Q s s') (hQ : ∀ id r js, s.journal <:+ js → Q id r js → Q' id r js) :
    PopsOnly Q' s s' :=
  ⟨h.suffix, fun id r js hp hs => hQ id r js hs (h.rule id r js hp hs)⟩

theorem Mild.popsOnly (h : Mild s s') : PopsOnly Q s s' := by
  obtain ⟨-, es, he, hj⟩ := h
  exact .quiet es hj fun e hm => Event.not_takesOff_of_isMild (he e hm)

theorem Remarked.popsOnly (h : Remarked s s') : PopsOnly Q s s' := h.mild.popsOnly

theorem Worked.popsOnly (h : Worked s s') : PopsOnly Q s s' := by
  obtain ⟨fs, es, he, -, rfl⟩ := h
  refine .quiet es rfl fun e hm => ?_
  rcases he e hm with h | ⟨id, v, rfl⟩
  · exact Event.not_takesOff_of_isMild (Event.isMild_of_isRemark h)
  · rfl

theorem enterNotReady_mild (s : Session σ τ) : Mild s s.enterNotReady := by
  unfold Session.enterNotReady
  split
  · exact .refl s
  · exact (setState_mild { s with prior := s.state } _).trans (remarked_log _ _ _).mild

theorem PopsOnly.pop (s : Session σ τ) (f : Frame τ) {r : FrameResult} (h : Q f.id r s.journal) :
    PopsOnly Q s (s.pop f r) := by
  obtain ⟨es, hn, he⟩ := popNews_idle s f r
  have h1 : PopsOnly Q s (s.record (.popped f.id r)) := by
    refine ⟨List.suffix_cons _ _, fun id r' js hp hs => ?_⟩
    obtain ⟨h1, h2⟩ := List.cons.inj (hp.eq_of_length_le (Nat.succ_le_succ hs.length_le))
    obtain ⟨rfl, rfl⟩ := Event.popped.inj h1
    exact h2 ▸ h
  refine h1.trans (.quiet es (by rw [pop_eq, he]; simp [record]) fun e hm => ?_)
  have := hn.aloof e hm
  cases e <;> first | rfl | cases this

/-- Frames are taken off one after the other, each under the same rule. -/
theorem PopsOnly.popAll {r : FrameResult} (fs : List (Frame τ)) (s : Session σ τ)
    (h : ∀ g ∈ fs, ∀ es : List Event, (∀ e ∈ es, ¬e.isControl) → Q g.id r (es ++ s.journal)) :
    PopsOnly Q s (fs.foldl (fun s f => s.pop f r) s) := by
  induction fs generalizing s with
  | nil => exact .refl s
  | cons f fs ih =>
    obtain ⟨hf, hfs⟩ := List.forall_mem_cons.1 h
    refine (PopsOnly.pop s f (hf [] (by simp))).trans (ih (s.pop f r) fun g hg es hes => ?_)
    have hn : ∀ e ∈ s.popNews f r, ¬e.isControl := fun e he => (popNews_quiet s f r e he).1
    have hq := hfs g hg (es ++ s.popNews f r) (List.forall_mem_append.2 ⟨hes, hn⟩)
    rw [pop_eq]
    rwa [List.append_assoc] at hq

theorem PopsOnly.halt (h : ∀ g ∈ s.stack, ∀ es : List Event, (∀ e ∈ es, ¬e.isControl) →
    Q g.id .stopped (es ++ s.journal)) : PopsOnly Q s s.halt := by
  have h1 : PopsOnly Q s { s with stopEvent := true } := .same rfl
  exact h1.trans (.popAll s.stack.reverse { s with stopEvent := true } fun g hg =>
    h g (List.mem_reverse.1 hg))

/-! From outside. -/

/-- Frames are stopped by a stop that is under way. -/
def Halted (_ : Nat) (r : FrameResult) (js : List Event) : Prop := r = .stopped ∧ Journal.Stopping js

theorem stop_pops (h : Journal.Stopping s.journal) : PopsOnly Halted s (s.stop false) := by
  unfold Session.stop
  split
  · exact .refl s
  · refine (PopsOnly.halt fun g _ es hes => ⟨rfl, ?_⟩).trans (remarked_log _ _ _).popsOnly
    obtain ⟨ns, ks, hj, hn⟩ := h
    exact ⟨es ++ ns, ks, by rw [hj, List.append_assoc], List.forall_mem_append.2 ⟨hes, hn⟩⟩

theorem control_pops (b : Bridge τ) (s : Session σ τ) (k : Control) : PopsOnly Halted s (k.apply b s) := by
  have h1 : PopsOnly Halted s (s.record (.calling k)) := .quiet [.calling k] rfl (by simp [Event.takesOff])
  refine h1.trans (PopsOnly.trans ?_ (.quiet [.called k _] rfl (by simp [Event.takesOff])))
  by_cases hk : k = .stop false
  · subst hk
    exact stop_pops ⟨[], s.journal, rfl, by simp⟩
  · exact (perform_mild b _ hk).popsOnly

/-- While the driver waits frames are taken off only by a stop. -/
theorem halted (b : Bridge τ) (o : Oracle σ τ) : Respects b o (PopsOnly Halted) where
  refl := .refl
  trans := .trans
  client _ _ := .same rfl
  control c _ := control_pops b _ c
  start name _ _ := (runNested_starts b _ name).elim fun _ hp => hp.mild.popsOnly
  remark h := h.popsOnly

theorem Readied.hostCalls_pops {n : Nat} (hs : s.Sound) (h : Readied s t)
    (h' : Readied (hostCalls (.ofOracle b o) n t) u) : PopsOnly Halted s u :=
  h.worked.popsOnly.trans (((halted b o).hostCalls n (h.sound hs)).trans h'.worked.popsOnly)

theorem begin_pops (s : Session σ τ) : PopsOnly Q s s.begin := by
  unfold Session.begin
  split
  · exact .same rfl
  · exact .refl s

theorem landed_pops (h : u.Sound) (hl : u.flight? (.ofOracle b o) b = some l) :
    PopsOnly Halted u (l.landed (.ofOracle b o) b).2 := by
  obtain ⟨-, n, t, ht, hr⟩ := flight_readied hl
  have h1 := Readied.hostCalls_pops ((begin_changes (o := o) u).sound h) ht hr
  have h2 := (halted b o).perform (flight_spec h hl).1 l.frame l.line
  have h3 : PopsOnly Halted l.session (l.session.record (.handed l.frame.id l.line)) :=
    .quiet [.handed l.frame.id l.line] rfl (by simp [Event.takesOff])
  exact (begin_pops u).trans (h1.trans (h3.trans h2))

end Session

end Macros
