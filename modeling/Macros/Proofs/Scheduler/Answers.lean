import Macros.Proofs.Scheduler.Ends

/-!
A whole advance: requests are followed while its line is under way, and kept once it has ended.
-/

namespace Macros

namespace Session

open Journal

variable {σ τ : Type} {o : Oracle σ τ} {b : Bridge τ} {s s' s'' : Session σ τ}

/-- The innermost frame had been asked to pause at its next loop line, and its line was one. -/
def PausedByLoop (s : Session σ τ) (es : List Event) : Prop :=
  ∃ f i, s.top? = some f ∧ f.pauseAtLoop ∧ .handed f.id i ∈ es ∧ i.command = "loop"

/-- The driver goes on, follows requests, and ends. -/
def Answers (s s' : Session σ τ) : Prop :=
  ∃ es, s'.journal = es ++ s.journal ∧
    (OnlyRequests es → s.Live → Kept (held s.state es) (PausedByLoop s es) s')

theorem Heeds.answers (h : Heeds s s') (he : Ends False s' s'') : Answers s s'' := by
  obtain ⟨es, hj, hk⟩ := h
  obtain ⟨es', hn, hj'⟩ := he.calm
  refine ⟨es' ++ es, by rw [hj', hj, List.append_assoc], fun hr hl => ?_⟩
  obtain ⟨h1, h2, -⟩ := hk hr.of_append.2 hl
  have h3 := he.kept h1
  rw [held_append, held_of_neutral hn, ← h2]
  exact h3.imp_right (.imp_right (.imp_left fun h => h.1.elim))

theorem marked_of_prefix (h' : s'.Sound) (hp : s.marks <+: s'.marks) {f : Frame τ}
    (hf : f ∈ s.stack) (hm : (f.id, true) ∈ s'.marks) : f.pauseAtLoop := by
  have h1 : (f.id, f.pauseAtLoop) ∈ s'.marks := hp.subset (List.mem_map_of_mem hf)
  obtain ⟨g, hg, he⟩ := List.mem_map.1 h1
  obtain ⟨g', hg', he'⟩ := List.mem_map.1 hm
  simp only [Prod.mk.injEq] at he he'
  obtain rfl := h'.eq_of_id hg hg' (he.1.trans he'.1.symm)
  exact he.2.symm.trans he'.2

/-- A line is handed over, and ends. -/
theorem Heeds.answers_line {f : Frame τ} {i : Instruction} (hs : Heeds s s') (h' : s'.Sound)
    (ht : s.top? = some f)
    (he : Ends ((f.id, true) ∈ (s'.perform (.ofOracle b o) b f i).2.marks ∧ i.command = "loop")
      (s'.perform (.ofOracle b o) b f i).2 s'') : Answers s s'' := by
  obtain ⟨e₁, hj₁, hk₁⟩ := hs
  obtain ⟨e₂, hj₂, hk₂⟩ := (heeds b o).perform h' f i
  obtain ⟨e₃, hn, hj₃⟩ := he.calm
  have h3 := ((meanwhile b o).perform h' f i).changes.sound (h'.of_eq rfl rfl rfl rfl)
  refine ⟨e₃ ++ (e₂ ++ (.handed f.id i :: e₁)), ?_, fun hr hl => ?_⟩
  · rw [hj₃, hj₂, show (s'.record _).journal = _ :: s'.journal from rfl, hj₁]
    simp
  obtain ⟨h4, h5, h6⟩ := hk₁ (fun c hc => hr c (by simp [hc])) hl
  obtain ⟨h7, h8, h9⟩ := hk₂ (fun c hc => hr c (by simp [hc])) h4
  have h10 := he.kept h7
  have hx : held s.state (e₃ ++ (e₂ ++ (.handed f.id i :: e₁))) =
      (s'.perform (.ofOracle b o) b f i).2.state := by
    rw [held_append, held_of_neutral hn, held_append, h8]
    exact congrArg (held · e₂) h5.symm
  rw [hx]
  refine h10.imp_right (.imp_right (.imp_left fun hp => ⟨?_, hp.2⟩))
  have hm := marked_of_prefix h3 (h6.trans h9) (top?_mem ht) hp.1.1
  exact ⟨f, i, ht, hm, by simp, hp.1.2⟩

theorem modifyNative_heeds (s : Session σ τ) (id : Nat) (g : NativeWork → NativeWork) :
    Heeds s (s.modifyNative id g) :=
  Calm.heeds ⟨[], by simp, rfl⟩ rfl (modifyNative_marks s id g)

theorem modifyScript_heeds (s : Session σ τ) (id : Nat) (g : ScriptWork τ → ScriptWork τ) :
    Heeds s (s.modifyScript id g) :=
  Calm.heeds ⟨[], by simp, rfl⟩ rfl (modifyScript_marks s id g)

theorem advanceNative_answers (h : s.Sound) {f : Frame τ} {w : NativeWork} (ht : s.top? = some f)
    (hw : f.work = .native w) : Answers s (s.advanceNative (.ofOracle b o) b f w).2 := by
  have hf := top?_mem ht
  rcases advanceNative_cases (.ofOracle b o) b s f w with ha | ⟨i, t, hi, rfl, ha⟩
  · rw [ha]
    exact Heeds.answers (Remarked.refl s).heeds ((Ends.refl s).pop f .completed)
  · obtain ⟨h1, hown, hline⟩ := stepOver_spec (o := o) h hf hw hi
    have hs := Changes.sound h1 h
    have h2 : Heeds s (s.stepOver f.id) :=
      (modifyNative_heeds s f.id _).trans (remarked_emitStatus _).heeds
    have h3 := ((meanwhile b o).perform hs f i).changes.sound (hs.of_eq rfl rfl rfl rfl)
    rcases ha with ha | ⟨x, ha⟩
    · rw [ha]
      exact h2.answers_line hs ht (.refl _)
    · rw [ha]
      exact h2.answers_line hs ht (afterNative_ends h3 (hline.perform hs hown) x)

/-- A line that a script yielded. -/
theorem scriptLine_answers (hs : Heeds s s') (h' : s'.Sound) {f : Frame τ} (ht : s.top? = some f)
    (line : String) (k : Int) : Answers s (s'.scriptLine (.ofOracle b o) b f line k).2 := by
  rcases scriptLine_cases (.ofOracle b o) b s' f line k with ⟨t, p, hr, ha⟩ | ⟨i, t, rfl, ha⟩
  · rw [ha]
    exact ((hs.trans hr.heeds).trans (modifyScript_heeds t f.id _)).answers (.refl _)
  · have h1 := hs.trans (remarked_emitStatus s').heeds
    have h2 : s'.emitStatus.Sound := h'.of_eq rfl rfl rfl rfl
    have h3 := ((meanwhile b o).perform h2 f i).changes.sound (h2.of_eq rfl rfl rfl rfl)
    rcases ha with ha | ⟨x, ha⟩
    · rw [ha]
      exact h1.answers_line h2 ht (.refl _)
    · rw [ha]
      exact h1.answers_line h2 ht (afterScript_ends h3 f.id line i x)

theorem scriptStep_heeds (h : s.Sound) {f : Frame τ} (hf : f ∈ s.stack) (w : ScriptWork τ) :
    Heeds s (s.scriptStep (.ofOracle b o) b f w).2 := by
  unfold scriptStep
  split
  · exact modifyScript_heeds s f.id _
  · exact modifyScript_heeds s f.id _
  · next run a _ =>
    dsimp only
    have h1 : Heeds s (s.record (.sent f.id (if w.run.started then w.pendingResult else .null))) :=
      (calm_record s rfl).heeds rfl rfl
    have h2 := h1.trans (modifyScript_heeds _ f.id fun w => { w with run := run })
    refine (h2.trans ((heeds b o).hostCalls a.hostCalls ?_)).trans (modifyScript_heeds _ f.id _)
    have h3 : Change o s _ := .send s f.id (if w.run.started then w.pendingResult else .null)
      ((owns_iff s f.id).2 ⟨f, hf, rfl⟩)
    exact (script_change (o := o) _ f.id _).sound (h3.sound h)

theorem advanceScript_answers (h : s.Sound) {f : Frame τ} {w : ScriptWork τ}
    (ht : s.top? = some f) : Answers s (s.advanceScript (.ofOracle b o) b f w).2 := by
  have hf := top?_mem ht
  rcases advanceScript_cases (.ofOracle b o) b s f w with ⟨line, k, ha⟩ | ⟨t, rfl, ha⟩
  · have h1 := script_change (o := o) s f.id fun w => { w with pendingLine := none }
    rw [ha]
    exact scriptLine_answers (modifyScript_heeds s f.id _) (h1.sound h) ht line k
  · have h1 := scriptStep_heeds (o := o) (b := b) h hf w
    rcases ha with ⟨u, r, hr, ha⟩ | ⟨line, k, ha⟩
    · rw [ha]
      exact (h1.trans hr.heeds).answers ((Ends.refl u).popIfOwned f.id r)
    · have h2 := (scriptStep_spec (o := o) (b := b) h hf w).1
      have h3 := h2.trans (script_change _ f.id fun w => { w with steps := w.steps + 1 })
      rw [ha]
      exact scriptLine_answers (h1.trans (modifyScript_heeds _ f.id _)) (Changes.sound h3 h) ht
        line k

theorem advanceTop_answers (h : s.Sound) : Answers s (s.advanceTop (.ofOracle b o) b).2 := by
  unfold advanceTop
  split
  · next ht =>
    refine Heeds.answers (Remarked.refl s).heeds ⟨setState_calm s _, fun hl => ?_⟩
    exact absurd (List.getLast?_eq_none_iff.1 ht) hl.2
  · next f ht =>
    split
    · next w hw => exact advanceNative_answers h ht hw
    · exact advanceScript_answers h ht

theorem advance_answers (h : s.Sound) : Answers s (s.advance (.ofOracle b o) b).2 := by
  have h1 := advanceTop_answers (o := o) (b := b) ((begin_changes (o := o) s).sound h)
  unfold advance
  unfold Session.begin at h1 ⊢
  split at h1
  · next hf => rw [if_pos hf]; exact h1
  · next hf => rw [if_neg hf]; exact h1

end Session

end Macros
