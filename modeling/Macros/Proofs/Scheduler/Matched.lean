import Macros.Proofs.Scheduler.Lockstep

/-!
A line that is handed over in two runs that stand at the same place. It comes to the same in both of them,
or the client of the disturbed run is away, and that run is left where it stood.
-/

namespace Macros

open Session Act

namespace Session

variable {τ : Type} {s t : Session Diary τ} {b : Bridge τ} (W : World) (ω : Weather τ)
  (draw : Session Diary τ → Binary64)

/-! A line. -/

/-- What a line comes to in both runs. -/
inductive Ran {α : Type} (s : Session Diary τ) (x y : Except Fault α × Session Diary τ) : Prop
  | endless (h : x.1 = .error .endless ∨ y.1 = .error .endless)
  | away (m : String) (h : x.1 = .error (.unavailable m)) (hs : Lull s x.2)
  | same (h : Alike x y) (hx : Answered x.1)

theorem Ran.after {α : Type} {s' : Session Diary τ} {x y : Except Fault α × Session Diary τ}
    (h : Lull s s') (hx : Ran s' x y) : Ran s x y := by
  cases hx with
  | endless he => exact .endless he
  | away m he hs => exact .away m he (h.trans hs)
  | same he ha => exact .same he ha

theorem play_serene {α : Type} {asks : Bool} {m : Act α} (hm : Determined asks m)
    (h : t.Serene) : (m.play (.ofOracle b (W.oracle (.calm draw))) b t).2.Serene :=
  h.aside (run_steady (b := b) (W.steady draw) hm.tame t).2

theorem play_ran {α : Type} {asks : Bool} {m : Act α} (hm : Determined asks m) (h : Abreast s t)
    (hst : s.attempt = t.attempt) (hs : s.stopEvent = false) (ht : t.stopEvent = false) :
    Ran s (m.play (.ofOracle b (W.oracle ω)) b s)
      (m.play (.ofOracle b (W.oracle (.calm draw))) b t) := by
  have hl := play_lull W ω b hm s
  have hr := play_lull W (.calm draw) b hm t
  cases play_meets W ω (.calm draw) b (fun _ => rfl) hm hst hs ht with
  | endless h => exact .endless h
  | away _ m h => exact .away m h hl
  | same hx ha _ => exact .same ⟨hx, h.both hl hr (play_serene W draw hm h.calm)⟩ ha

theorem launches_aside (b : Bridge τ) {α : Type} {name : Value} {m : Act α} (hm : Launches name m)
    (s : Session Diary τ) : (m.play (.ofOracle b (W.oracle ω)) b s).2.past = s.past ∧
      Answered (m.play (.ofOracle b (W.oracle ω)) b s).1 := by
  obtain ⟨next, hn, hd⟩ := hm
  have hd1 := hd _ (runNested_answered b s name)
  rw [play_launch hn]
  exact ⟨(play_lull W ω b hd1 _).past.trans (runNested_told b s name).past, play_answered W ω b hd1 _⟩

/-- A macro is started at once, and what follows asks nothing. -/
theorem launches_ran {α : Type} {name : Value} {m : Act α} (hm : Launches name m) (h : Abreast s t)
    (hst : s.attempt = t.attempt) (hs : s.stopEvent = false) (ht : t.stopEvent = false) :
    Ran s (m.play (.ofOracle b (W.oracle ω)) b s)
      (m.play (.ofOracle b (W.oracle (.calm draw))) b t) := by
  obtain ⟨next, hn, hd⟩ := hm
  have h1 := runNested_alike h b name
  have hs1 := runNested_told b s name
  have ht1 := runNested_told b t name
  have hd1 := hd _ (runNested_answered b s name)
  rw [play_launch hn, play_launch hn, ← h1.result]
  have h2 : s.attempt = t.attempt := hst
  rw [← hs1.attempt, ← ht1.attempt] at h2
  cases play_meets W ω (.calm draw) b (fun _ => rfl) hd1 h2 (hs1.stopEvent.trans hs)
    (ht1.stopEvent.trans ht) with
  | endless h => exact .endless h
  | away ha => contradiction
  | same hx ha _ =>
    exact .same ⟨hx, h1.abreast.both (play_lull W ω b hd1 _) (play_lull W (.calm draw) b hd1 _)
      (play_serene W draw hd1 h1.abreast.calm)⟩ ha

theorem execute_ran (h : Abreast s t) (hst : s.attempt = t.attempt) (hs : s.stopEvent = false)
    (ht : t.stopEvent = false) (i : Instruction) :
    Ran s ((Execution.execute s.settings i).play (.ofOracle b (W.oracle ω)) b s)
      ((Execution.execute t.settings i).play (.ofOracle b (W.oracle (.calm draw))) b t) := by
  rw [h.settings]
  by_cases hc : i.command = "runmacro"
  · rw [Execution.execute_runMacro _ hc, play_bind, play_bind]
    have hl := play_lull W ω b (Execution.determined_conditionMet i) s
    have hr := play_lull W (.calm draw) b (Execution.determined_conditionMet i) t
    cases play_meets W ω (.calm draw) b (fun _ => rfl) (Execution.determined_conditionMet i) hst hs ht with
    | endless h =>
      refine .endless (h.imp (fun h => ?_) fun h => ?_) <;> rw [h]
    | away _ m h =>
      rw [h]
      exact .away m rfl hl
    | same hx ha hst' =>
      have h1 : Abreast ((Execution.conditionMet i).play (.ofOracle b (W.oracle ω)) b s).2
          ((Execution.conditionMet i).play (.ofOracle b (W.oracle (.calm draw))) b t).2 :=
        h.both hl hr (play_serene W draw (Execution.determined_conditionMet i) h.calm)
      rw [← hx]
      split
      · next met _ =>
        refine Ran.after hl ?_
        cases met with
        | false =>
          exact play_ran W ω draw (Execution.skip_determined i) h1 hst' (hl.stopEvent.trans hs)
            (hr.stopEvent.trans ht)
        | true =>
          exact launches_ran W ω draw (Execution.runMacro_launches i) h1 hst'
            (hl.stopEvent.trans hs) (hr.stopEvent.trans ht)
      · next e he => exact .same ⟨rfl, h1⟩ (answered_error.2 (answered_error.1 (he ▸ ha)))
  · exact play_ran W ω draw (Execution.execute_determined _ hc) h hst hs ht

/-- A line itself brings nothing to an outcome, and is nothing to the run if the client is away. -/
theorem execute_aside (b : Bridge τ) (settings : Settings) (i : Instruction) (s : Session Diary τ) :
    ((Execution.execute settings i).play (.ofOracle b (W.oracle ω)) b s).2.past = s.past ∧
      (Answered ((Execution.execute settings i).play (.ofOracle b (W.oracle ω)) b s).1 ∨
        Lull s ((Execution.execute settings i).play (.ofOracle b (W.oracle ω)) b s).2) := by
  by_cases hc : i.command = "runmacro"
  · rw [Execution.execute_runMacro _ hc, play_bind]
    have hl := play_lull W ω b (Execution.determined_conditionMet i) s
    split
    · next met _ =>
      cases met with
      | false =>
        have h1 := hl.trans (play_lull W ω b (Execution.skip_determined i) _)
        exact ⟨h1.past, .inr h1⟩
      | true =>
        obtain ⟨hp, ha⟩ := launches_aside W ω b (Execution.runMacro_launches i) _
        exact ⟨hp.trans hl.past, .inl ha⟩
    · exact ⟨hl.past, .inr hl⟩
  · have hl := play_lull W ω b (Execution.execute_determined settings hc) s
    exact ⟨hl.past, .inr hl⟩

theorem handed_attempt (hs : s.Dated) (id : Nat) (i : Instruction) :
    (s.record (.handed id i)).attempt = ⟨s.past, some (id, i), 0⟩ := by
  have hn : s.client.attempt ≠ (s.record (.handed id i)).attempts.length :=
    Nat.ne_of_lt (Nat.lt_succ_of_le hs)
  have ha : (s.record (.handed id i)).asked = 0 := if_neg hn
  rw [attempt, ha]
  rfl

/-- What becomes of a line that is handed over. -/
inductive Fate (s : Session Diary τ) (x : Except Fault LineResult × Session Diary τ) : Prop
  | endless (u : Session Diary τ) (h : x = (.error .endless, u))
  | away (u : Session Diary τ) (h : x = (.ok none, u)) (hu : Lull s u)
  | settled (o : Outcome) (u : Session Diary τ) (h : x = (.ok (some o), u))
    (hp : s.past.length < u.past.length)

theorem perform_fate (b : Bridge τ) (f : Frame τ) (i : Instruction) (s : Session Diary τ) :
    Fate (s.record (.handed f.id i)) (s.perform (.ofOracle b (W.oracle ω)) b f i) := by
  obtain ⟨hp, hl⟩ := execute_aside W ω b (s.record (.handed f.id i)).settings i
    (s.record (.handed f.id i))
  have hsettled : ∀ (u : Session Diary τ) (o : Outcome), u.past = s.past →
      s.past.length < (u.record (.settled f.id i o)).past.length := fun u o hu => by
    rw [past_settled, hu, List.length_append]
    exact Nat.lt_succ_self _
  unfold Act.play at hp hl
  unfold Session.perform
  dsimp only
  generalize (Execution.execute (s.record (.handed f.id i)).settings i).run.run _ _ = x at hp hl ⊢
  obtain ⟨r, u⟩ := x
  cases r with
  | ok o => exact .settled o _ rfl (hsettled u o hp)
  | error e =>
    cases e with
    | unavailable m =>
      have hu := hl.resolve_left fun ha => ha m rfl
      exact .away _ rfl (hu.trans (Hush.log u _ _).toLull)
    | endless => exact .endless _ rfl
    | _ => exact .settled _ _ rfl (hsettled _ _ ((Hush.log u _ _).past.trans hp))

/-- What becomes of a line that is handed over in both runs. By chance, one of them may wait without an
end where the other does not. -/
inductive Matched (t : Session Diary τ) (x y : Except Fault LineResult × Session Diary τ) : Prop
  | endless (u : Session Diary τ) (h : x = (.error .endless, u))
  | stuck (o : Outcome) (u v : Session Diary τ) (hx : x = (.ok (some o), u)) (hy : y = (.error .endless, v))
    (hp : t.past.length < u.past.length)
  | away (u : Session Diary τ) (h : x = (.ok none, u)) (hu : Abreast u t)
  | settled (o : Outcome) (u v : Session Diary τ) (hx : x = (.ok (some o), u)) (hy : y = (.ok (some o), v))
    (h : Abreast u v)

theorem perform_matched (h : Abreast s t) (hs : s.stopEvent = false) (ht : t.stopEvent = false)
    {f g : Frame τ} (hi : f.id = g.id) (i : Instruction) :
    Matched t (s.perform (.ofOracle b (W.oracle ω)) b f i)
      (t.perform (.ofOracle b (W.oracle (.calm draw))) b g i) := by
  have h0 := h.handed f.id g.id i i
  have hst : (s.record (.handed f.id i)).attempt = (t.record (.handed g.id i)).attempt := by
    rw [handed_attempt h.left.dated, handed_attempt h.right.dated, h.past, hi]
  have hx := execute_ran W ω draw (b := b) h0 hst hs ht i
  have hp := perform_fate W ω b f i s
  have haway : ∀ {u : Session Diary τ}, Lull (s.record (.handed f.id i)) u → Abreast u t :=
    fun hu => ⟨hu.core.trans h.core, hu.able h0.left, h.right, h.calm⟩
  unfold Act.play at hx
  unfold Session.perform at hp ⊢
  dsimp only at hp ⊢
  generalize (Execution.execute (s.record (.handed f.id i)).settings i).run.run _ _ = x at hx hp ⊢
  generalize (Execution.execute (t.record (.handed g.id i)).settings i).run.run _ _ = y at hx ⊢
  obtain ⟨r, u⟩ := x
  obtain ⟨r', v⟩ := y
  cases hx with
  | endless he =>
    cases hp with
    | endless u hx => exact .endless u hx
    | away u hx hu => exact .away u hx (haway hu)
    | settled o u hx hlt =>
      rcases he with he | he
      · obtain rfl : r = _ := he
        simp at hx
      · obtain rfl : r' = _ := he
        exact .stuck o u _ hx rfl (h.past ▸ hlt)
  | away m he hu =>
    obtain rfl : r = _ := he
    exact .away _ rfl (haway (hu.trans (Hush.log u _ _).toLull))
  | same he ha =>
    obtain rfl : r = r' := he.result
    have h1 : Abreast u v := he.abreast
    have hlog : ∀ m m' : String, Abreast (u.log .error m) (v.log .error m') := h1.log _
    rw [hi]
    cases r with
    | ok o => exact .settled o _ _ rfl rfl (h1.settled g.id i o)
    | error e =>
      cases e with
      | unavailable m => exact absurd rfl (ha m)
      | endless => exact .endless _ rfl
      | _ => exact .settled _ _ _ rfl rfl ((hlog _ _).settled g.id i _)

end Session

end Macros
