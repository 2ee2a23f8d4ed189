import Macros.Proofs.Scheduler.Weather

/-!
The same line in two kinds of weather. In one of them the client may be found to be away, and then the
line has done nothing; otherwise both attempts get the same answers, and so they come to the same.
-/

namespace Macros

open Session Act

variable {α β : Type}

namespace Session

variable {τ : Type} {asks : Bool} {m : Act α} {s t : Session Diary τ} (W : World) (ω ω' : Weather τ)
  (b : Bridge τ)

theorem play_lull (h : Determined asks m) (s : Session Diary τ) :
    Lull s (m.play (.ofOracle b (W.oracle ω)) b s).2 := by
  induction h generalizing s with
  | fixed _ h => exact (run_lone W ω b h s).2.toLull
  | stopped => exact .refl s
  | ask r => exact respond_lull W ω b (.ask r) s
  | condition => exact respond_lull W ω b .condition s
  | bind _ _ ih ihf =>
    rw [play_bind]
    split
    · exact (ih s).trans (ihf _ _)
    · exact ih s
  | tryCatch _ _ he ih ihf =>
    rw [play_tryCatch]
    split
    · exact ih s
    · next e _ =>
      refine (ih s).trans ?_
      cases hx : e.escapes with
      | false => exact ihf e hx _
      | true =>
        rw [he e hx]
        exact .refl _

/-- What asks nothing does not find the client away. -/
theorem play_answered (h : Determined false m) (s : Session Diary τ) :
    Answered (m.play (.ofOracle b (W.oracle ω)) b s).1 := by
  induction h generalizing s with
  | fixed hy h =>
    rcases (run_lone W ω b h s).1 with hx | hx
    · exact hx ▸ hy
    · exact hx ▸ answered_error.2 fun m he => by contradiction
  | stopped => exact answered_ok _
  | ask _ ha => contradiction
  | condition ha => contradiction
  | bind _ _ ih ihf =>
    rw [play_bind]
    split
    · exact ihf _ _
    · next e he => exact answered_error.2 (answered_error.1 (he ▸ ih s))
  | tryCatch _ _ he ih ihf =>
    rw [play_tryCatch]
    split
    · exact answered_ok _
    · next e hr =>
      cases hx : e.escapes with
      | false => exact ihf e hx _
      | true =>
        rw [he e hx]
        exact answered_error.2 (answered_error.1 (hr ▸ ih s))

/-- What two attempts come to: the same, unless one of them waits without an end or the client is away in
the first. -/
inductive Meets (asks : Bool) (x y : Except Fault α × Session Diary τ) : Prop
  | endless (h : x.1 = .error .endless ∨ y.1 = .error .endless)
  | away (ha : asks) (m : String) (h : x.1 = .error (.unavailable m))
  | same (h : x.1 = y.1) (hx : Answered x.1) (ht : x.2.attempt = y.2.attempt)

theorem Meets.fixed {x y : Except Fault α × Session Diary τ} {z : Except Fault α} (hz : Answered z)
    (hx : x.1 = z ∨ x.1 = .error .endless) (hy : y.1 = z ∨ y.1 = .error .endless)
    (ht : x.2.attempt = y.2.attempt) : Meets asks x y := by
  rcases hx with hx | hx
  · rcases hy with hy | hy
    · exact .same (hx.trans hy.symm) (hx ▸ hz) ht
    · exact .endless (.inr hy)
  · exact .endless (.inl hx)

/-- A question in calm weather is answered, and in another the same way or not at all. -/
theorem Meets.question (hw : ∀ s, ω'.outage s = none) (ha : asks) (hst : s.attempt = t.attempt)
    {q : Attempt → Except Fault α} (hq : ∀ a, Answered (q a)) {s' t' : Session Diary τ}
    (hs : s'.attempt = { s.attempt with asked := s.asked + 1 })
    (ht : t'.attempt = { t.attempt with asked := t.asked + 1 }) :
    Meets asks (ω.interrupt s (q s.attempt), s') (ω'.interrupt t (q t.attempt), t') := by
  have hn : s.asked = t.asked := congrArg Attempt.asked hst
  have hx : ω'.interrupt t (q t.attempt) = q t.attempt := by simp [Weather.interrupt, hw]
  rw [hx]
  cases ho : ω.outage s with
  | none =>
    refine .same ?_ ?_ ?_
    · simp [Weather.interrupt, ho, hst]
    · simpa [Weather.interrupt, ho] using hq s.attempt
    · rw [hs, ht, hst, hn]
  | some m => exact .away ha m (by simp [Weather.interrupt, ho])

/-- The answers decide what a line comes to. -/
theorem play_meets (hw : ∀ s, ω'.outage s = none) (h : Determined asks m) (hst : s.attempt = t.attempt)
    (hs : s.stopEvent = false) (ht : t.stopEvent = false) :
    Meets asks (m.play (.ofOracle b (W.oracle ω)) b s) (m.play (.ofOracle b (W.oracle ω')) b t) := by
  induction h generalizing s t with
  | fixed hy h =>
    obtain ⟨hx, hs'⟩ := run_lone W ω b h s
    obtain ⟨hy', ht'⟩ := run_lone W ω' b h t
    exact .fixed hy hx hy' (hs'.attempt.trans (hst.trans ht'.attempt.symm))
  | stopped =>
    have hx : ∀ (ω : Weather τ) (s : Session Diary τ), s.stopEvent = false →
        Act.stopped.play (.ofOracle b (W.oracle ω)) b s = (.ok false, s) := fun ω s h =>
      congrArg (fun x => (Except.ok x, s)) h
    rw [hx ω s hs, hx ω' t ht]
    exact .same rfl (answered_ok false) hst
  | ask r ha =>
    exact .question ω ω' hw ha hst (fun a => W.ask_answered a r)
      (respond_attempt W ω b (k := .ask r) rfl s) (respond_attempt W ω' b (k := .ask r) rfl t)
  | condition ha =>
    exact .question ω ω' hw ha hst W.condition_answered
      (respond_attempt W ω b (k := .condition) rfl s) (respond_attempt W ω' b (k := .condition) rfl t)
  | @bind _ _ m f hm _ ih ihf =>
    have hs' := (play_lull W ω b hm s).stopEvent
    have ht' := (play_lull W ω' b hm t).stopEvent
    rw [play_bind, play_bind]
    cases ih hst hs ht with
    | endless h =>
      refine .endless (h.imp (fun h => ?_) fun h => ?_) <;> rw [h]
    | away ha m h => exact .away ha m (by rw [h])
    | same h hx hst' =>
      rw [← h]
      split
      · exact ihf _ hst' (hs'.trans hs) (ht'.trans ht)
      · next e he => exact .same rfl (answered_error.2 (answered_error.1 (he ▸ hx))) hst'
  | @tryCatch _ m f hm _ he ih ihf =>
    have hs' := (play_lull W ω b hm s).stopEvent
    have ht' := (play_lull W ω' b hm t).stopEvent
    rw [play_tryCatch, play_tryCatch]
    cases ih hst hs ht with
    | endless h =>
      refine .endless (h.imp (fun h => ?_) fun h => ?_) <;> rw [h] <;> dsimp only <;> rw [he _ rfl] <;> rfl
    | away ha m h =>
      refine .away ha m ?_
      rw [h]
      dsimp only
      rw [he _ rfl]
      rfl
    | same h hx hst' =>
      rw [← h]
      split
      · exact .same rfl (answered_ok _) hst'
      · next e hr =>
        cases hx' : e.escapes with
        | false => exact ihf e hx' hst' (hs'.trans hs) (ht'.trans ht)
        | true =>
          rw [he e hx', play_throw, play_throw]
          exact .same rfl (answered_error.2 (answered_error.1 (hr ▸ hx))) hst'

end Session

end Macros
