import Macros.Proofs.Scheduler.Agreement
import Macros.Proofs.Scheduler.Flight

/-!
Lines that land late, when their frame has been stopped. All that such a line has done to the session is
what the control calls did that came in while it was under way, and the driver adds nothing.
-/

namespace Macros

namespace Session

open Journal Relation

variable {σ τ : Type} {o : Oracle σ τ} {b : Bridge τ} {s s' s'' : Session σ τ} {l : Flight σ τ}

/-! A frame that was stopped does not come back. -/

/-- A stop takes every frame off for good. -/
structure Vacates (o : Oracle σ τ) (s s' : Session σ τ) : Prop extends Meanwhile o s s' where
  vacant : (∃ e ∈ s.news s', e.stops) → ∀ id < s.nextId, s'.owns id = false

theorem Meanwhile.not_owns (h : Meanwhile o s s') {id : Nat} (hid : id < s.nextId)
    (ho : s.owns id = false) : s'.owns id = false := by
  rw [Bool.eq_false_iff] at ho ⊢
  intro hx
  obtain ⟨g, hg, rfl⟩ := (owns_iff s' id).1 hx
  obtain ⟨f, hf, hi, -⟩ := h.work g hg hid
  exact ho ((owns_iff s _).2 ⟨f, hf, hi⟩)

/-- Where no stop returned there is nothing more to show. -/
theorem Meanwhile.vacates (h : Meanwhile o s s') (es : List Event) (hj : s'.journal = es ++ s.journal)
    (hn : ∀ e ∈ es, ¬e.stops) : Vacates o s s' :=
  ⟨h, fun ⟨e, he, hs⟩ => absurd hs (hn e (by rwa [news_eq hj] at he))⟩

theorem Vacates.trans (h : Vacates o s s') (h' : Vacates o s' s'') : Vacates o s s'' := by
  refine ⟨h.toMeanwhile.trans h'.toMeanwhile, fun ⟨e, he, hs⟩ id hid => ?_⟩
  obtain ⟨es, -, hj⟩ := h.reports
  obtain ⟨es', -, hj'⟩ := h'.reports
  have hj'' : s''.journal = (es' ++ es) ++ s.journal := by rw [hj', hj, List.append_assoc]
  rw [news_eq hj''] at he
  rcases List.mem_append.1 he with he | he
  · exact h'.vacant ⟨e, by rwa [news_eq hj'], hs⟩ id (Nat.lt_of_lt_of_le hid h.nextId_le)
  · exact h'.not_owns (Nat.lt_of_lt_of_le hid h.nextId_le)
      (h.vacant ⟨e, by rwa [news_eq hj], hs⟩ id hid)

theorem Mild.vacates (h : Meanwhile o s s') (hm : Mild s s') : Vacates o s s' := by
  obtain ⟨-, es, he, hj⟩ := hm
  refine h.vacates _ hj fun e hx hs => ?_
  obtain ⟨p, rfl⟩ := Event.eq_called_of_stops hs
  exact Event.quiet_of_isMild (he _ hx) rfl

theorem apply_vacates (c : Control) (h : s.Sound) : Vacates o s (c.apply b s) := by
  refine ⟨apply_meanwhile b c h, fun hx id _ => ?_⟩
  by_cases hc : c = .stop false
  · subst hc
    have hs : (s.record (.calling (.stop false))).Sound := h.of_eq rfl rfl rfl rfl
    have he : (Control.apply b (.stop false) s).stack = [] := (stop_spec (o := o) hs).2.2
    simp [owns, he]
  · -- no other call has a stop among its reports
    obtain ⟨es, he, hj⟩ := perform_unsteered b (s.record (.calling c)) c
    obtain ⟨e, hm, hst⟩ := hx
    obtain ⟨p, rfl⟩ := Event.eq_called_of_stops hst
    rw [news_eq (apply_journal hj)] at hm
    rcases List.mem_append.1 hm with hm | hm
    · rcases List.mem_cons.1 hm with h1 | hm
      · exact absurd (Event.called.inj h1).1.symm hc
      · exact absurd rfl (he _ hm)
    · exact Event.noConfusion (List.mem_singleton.1 hm)

theorem vacates (b : Bridge τ) (o : Oracle σ τ) : Respects b o (Vacates o) where
  refl s := (Meanwhile.refl s).vacates [] rfl (by simp)
  trans := .trans
  client s k := ((meanwhile b o).client s k).vacates [] rfl (by simp)
  control c h := apply_vacates c h
  start name h hh := (runNested_starts b _ name).elim fun _ hp =>
    hp.mild.vacates ((meanwhile b o).start name h hh)
  remark h := h.mild.vacates h.meanwhile

/-! The driver leaves alone what it does not find. -/

theorem frame?_eq_none {id : Nat} (h : s.owns id = false) : s.frame? id = none := by
  rw [frame?, List.find?_eq_none]
  intro f hf hi
  rw [Bool.eq_false_iff] at h
  exact h ((owns_iff s id).2 ⟨f, hf, by simpa using hi⟩)

theorem modify_gone {id : Nat} (h : s.owns id = false) (g : Frame τ → Frame τ) :
    s.modify id g = s := by
  have hn : ∀ f ∈ s.stack, (if f.id = id then g f else f) = f := fun f hf =>
    if_neg fun hi => Bool.eq_false_iff.1 h ((owns_iff s id).2 ⟨f, hf, hi⟩)
  have hs : s.stack.map (fun f => if f.id = id then g f else f) = s.stack :=
    (List.map_congr_left hn).trans (List.map_id' s.stack)
  unfold Session.modify
  rw [hs]

theorem settle_gone {id : Nat} (h : s.owns id = false) (i : Instruction) (x : Outcome) :
    s.settle id i x = (.ok false, s) := by
  unfold settle
  rw [frame?_eq_none h]

theorem afterNative_gone {id : Nat} (h : s.owns id = false) (k : Nat) (i : Instruction)
    (x : LineResult) : (s.afterNative id k i x).2 = s := by
  unfold afterNative
  cases x with
  | none => simp [h]
  | some x =>
    dsimp only
    rw [settle_gone h]

theorem afterScript_gone {id : Nat} (h : s.owns id = false) (line : String) (i : Instruction)
    (x : LineResult) : (s.afterScript id line i x).2 = s := by
  unfold afterScript
  cases x with
  | none => simp [h]
  | some x =>
    dsimp only
    rw [modifyScript, modify_gone h, settle_gone h]

/-- The frame of a line is gone if everything was stopped while the line was under way. -/
theorem landed_gone (h : l.session.Sound) (hid : l.frame.id < l.session.nextId)
    (hx : ∃ e ∈ l.session.news (l.landed (.ofOracle b o) b).2, e.stops) :
    (l.landed (.ofOracle b o) b).2.owns l.frame.id = false := by
  have hv : Vacates o (l.session.record (.handed l.frame.id l.line)) (l.landed (.ofOracle b o) b).2 :=
    (vacates b o).perform h l.frame l.line
  obtain ⟨es, -, hj⟩ := hv.reports
  have hj' : (l.landed (.ofOracle b o) b).2.journal =
      (es ++ [Event.handed l.frame.id l.line]) ++ l.session.journal := by
    rw [hj]
    simp [record]
  obtain ⟨e, he, hs⟩ := hx
  rw [news_eq hj'] at he
  refine hv.vacant ⟨e, ?_, hs⟩ _ hid
  rw [news_eq hj]
  rcases List.mem_append.1 he with he | he
  · exact he
  · rw [List.mem_singleton.1 he] at hs
    simp [Event.stops] at hs

/-- A line that lands when its frame is gone has no consequences. -/
theorem conclude_gone {c : Client σ τ} (h : (l.landed c b).2.owns l.frame.id = false) :
    (l.conclude c b).2 = (l.landed c b).2 := by
  unfold Flight.conclude
  cases hx : l.landed c b with
  | mk x t =>
    rw [hx] at h
    cases x with
    | error e => rfl
    | ok x =>
      dsimp only [Flight.follow]
      split
      · exact afterNative_gone h _ _ _
      · exact afterScript_gone h _ _ _

/-- If everything is stopped while the line of a tick is under way, the session after the tick is what
the control calls have left that came in since the line was handed over, whatever the line comes
to: nothing else of it differs but the client and what the line has said about itself. -/
theorem late_line_inert (b : Bridge τ) (o : Oracle σ τ) {s : Session σ τ}
    (h : s.Reachable (.ofOracle b o) b) {l : Flight σ τ}
    (hl : s.tickFlight? (.ofOracle b o) b = some l) (hc : l.line.command ≠ "runmacro")
    (hx : ∃ e ∈ l.session.news (l.landed (.ofOracle b o) b).2, e.stops) :
    (s.tick (.ofOracle b o) b).2 = (l.landed (.ofOracle b o) b).2 ∧
      Agrees (l.session.land b (calls (l.session.news (l.landed (.ofOracle b o) b).2)))
        (s.tick (.ofOracle b o) b).2 := by
  obtain ⟨t, hs, ht⟩ := operation_flight h.sound (.inl hl)
  obtain ⟨hf, -, hid⟩ := flight_spec (hs.sound h.sound) ht
  have hq : (s.tick (.ofOracle b o) b).2 = (l.landed (.ofOracle b o) b).2 := by
    rw [tick_flight hl]
    exact conclude_gone (landed_gone hf hid hx)
  have hb : LeftByCalls b l.session (l.landed (.ofOracle b o) b).2 :=
    perform_leftByCalls l.session l.frame hc
  obtain ⟨es, hj, ha⟩ := hb
  refine ⟨hq, ?_⟩
  rw [hq, news_eq hj]
  exact ha

/-- A macro and a script, one of them started; while its first line is sent everything is stopped and the
same is started again. The client is found to be away or not. -/
def abandoned (name : String) (here : Bool) : Session Plan Lines :=
  (Session.waiting [.native "A" "/send X\n/loop 2", .script "S"]
    [(true, []), (here, [.stop false, .runByName name none, .pause true])]).operate
    (.ofOracle (.listed [(0, "/send Y")]) .planned) (.listed [(0, "/send Y")])
    [.control (.runByName name none)]

def lateMacro : Flight Plan Lines :=
  ((abandoned "A" false).tickFlight? (.ofOracle (.listed [(0, "/send Y")]) .planned)
    (.listed [(0, "/send Y")])).get (by decide +kernel)

def lateScript : Flight Plan Lines :=
  ((abandoned "S" true).tickFlight? (.ofOracle (.listed [(0, "/send Y")]) .planned)
    (.listed [(0, "/send Y")])).get (by decide +kernel)

/-- A line of a macro that finds the client away and one of a script that goes through; in both cases the
second run is untouched. -/
theorem late_sends_inert :
    let b := Bridge.listed [(0, "/send Y")]
    let c := Client.ofOracle b .planned
    (Agrees (lateMacro.session.land b [.stop false, .runByName "A" none, .pause true])
        ((abandoned "A" false).tick c b).2 ∧
      ((abandoned "A" false).tick c b).2.stack.map (fun f => (f.id, f.position, f.pauseAtLoop)) =
        [(1, 0, true)] ∧
      ((abandoned "A" false).tick c b).2.state = .running) ∧
    Agrees (lateScript.session.land b [.stop false, .runByName "S" none, .pause true])
        ((abandoned "S" true).tick c b).2 ∧
      ((abandoned "S" true).tick c b).2.stack.map (fun f => (f.id, f.position, f.pauseAtLoop)) =
        [(1, 0, true)] := by
  have h1 : (abandoned "A" false).Reachable (.ofOracle (.listed [(0, "/send Y")]) .planned)
      (.listed [(0, "/send Y")]) := .operate (.idle ..) _
  have h2 : (abandoned "S" true).Reachable (.ofOracle (.listed [(0, "/send Y")]) .planned)
      (.listed [(0, "/send Y")]) := .operate (.idle ..) _
  have h3 := (late_line_inert _ .planned h1 (l := lateMacro) (Option.some_get _).symm
    (by decide +kernel) (by decide +kernel)).2
  have h4 := (late_line_inert _ .planned h2 (l := lateScript) (Option.some_get _).symm
    (by decide +kernel) (by decide +kernel)).2
  have h5 : calls (lateMacro.session.news (lateMacro.landed
      (.ofOracle (.listed [(0, "/send Y")]) .planned) (.listed [(0, "/send Y")])).2) =
      [.stop false, .runByName "A" none, .pause true] := by decide +kernel
  have h6 : calls (lateScript.session.news (lateScript.landed
      (.ofOracle (.listed [(0, "/send Y")]) .planned) (.listed [(0, "/send Y")])).2) =
      [.stop false, .runByName "S" none, .pause true] := by decide +kernel
  rw [h5] at h3
  rw [h6] at h4
  exact ⟨⟨h3, by decide +kernel, by decide +kernel⟩, h4, by decide +kernel⟩

end Session

end Macros
