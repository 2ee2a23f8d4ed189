import Macros.Proofs.Scheduler.Cases
import Macros.Proofs.Scheduler.Planned

/-!
What the driver does with a session. Between its own changes it waits for answers; the frame of its
line is then as it was, or has been stopped. So every operation is a chain of elementary changes.
-/

namespace Macros

open Relation Session

variable {σ τ : Type}

namespace Session

variable {o : Oracle σ τ} {s s' : Session σ τ} {b : Bridge τ}

/-! Where the frame of a line stands. -/

/-- Is a frame still there, and native, then the line is at its place. -/
def HoldsLine (s : Session σ τ) (id k : Nat) (i : Instruction) : Prop :=
  ∀ f ∈ s.stack, f.id = id → ∀ w, f.work = .native w → w.instructions[k]? = some i

theorem HoldsLine.lt {id k : Nat} {i : Instruction} (h : s.HoldsLine id k i) :
    ∀ f ∈ s.stack, f.id = id → ∀ w, f.work = .native w → k < w.instructions.length :=
  fun f hf hi w hw => (List.getElem?_eq_some_iff.1 (h f hf hi w hw)).1

theorem HoldsLine.after {id k : Nat} {i : Instruction} (h : s.HoldsLine id k i)
    (hid : id < s.nextId) (hm : Meanwhile o s s') : s'.HoldsLine id k i := by
  intro g hg hi w hw
  obtain ⟨f, hf, hf', he⟩ := hm.work g hg (by rw [hi]; exact hid)
  exact h f hf (hf'.trans hi) w (he.trans hw)

theorem HoldsLine.remarked {id k : Nat} {i : Instruction} (h : s.HoldsLine id k i)
    (hr : Remarked s s') : s'.HoldsLine id k i := by
  intro f hf
  rw [hr.stack] at hf
  exact h f hf

/-! After the line. -/

theorem loopFlags_changes (h : s.Sound) (id : Nat) : Changes o s (s.loopFlags id) := by
  rcases loopFlags_cases s id with he | ⟨t, hr, he⟩ | ⟨f, t, -, -, rfl, hr⟩
  · rw [he]
  · have h1 : Changes o s t := hr.changes
    rw [he]
    exact h1.trans (halt_spec (h1.sound h)).1
  · have h1 : Changes o s (s.modify id fun f => { f with pauseAtLoop := false }) :=
      .single (.mark s id (fun _ => false) (·.stopAtLoop))
    refine h1.trans (ReflTransGen.trans ?_ hr.changes)
    split
    · next hp => exact .single (.pause _ hp)
    · exact .refl

theorem loopBoundary_changes (h : s.Sound) {id k : Nat} {i : Instruction}
    (hl : s.HoldsLine id k i) (hc : i.command = "loop") :
    Changes o s (s.loopBoundary id k (loopCount i)).2 := by
  rcases loopBoundary_cases s id k (loopCount i) with ht | ht | ⟨t, hr, ht⟩
  · rw [ht]
  · rw [ht]
    exact loopFlags_changes h id
  · have h1 : Changes o s (s.modifyNative id fun w => passLoop w k (loopCount i)) :=
      .single (.passLoop s id k _ fun f hf hi w hw => ⟨i, hl f hf hi w hw, hc, rfl⟩)
    have h2 := h1.trans hr.changes
    rcases ht with ht | ht
    · rw [ht]
      exact h2
    · rw [ht]
      exact h2.trans (loopFlags_changes (Changes.sound h2 h) id)

theorem popIfDone_changes (s : Session σ τ) (id : Nat) : Changes o s (s.popIfDone id) := by
  rcases popIfDone_cases s id with he | ⟨f, hf, he⟩
  · rw [he]
  · rw [he]
    exact .single (.pop s f .completed hf)

theorem popIfOwned_changes (s : Session σ τ) (id : Nat) (r : FrameResult) :
    Changes o s (s.popIfOwned id r) := by
  rcases popIfOwned_cases s id r with he | ⟨f, hf, he⟩
  · rw [he]
  · rw [he]
    exact .single (.pop s f r hf)

theorem settle_changes (s : Session σ τ) (id : Nat) (i : Instruction) (x : Outcome) :
    Changes o s (s.settle id i x).2 := by
  rcases settle_cases s id i x with hr | ⟨t, f, hf, hr, he⟩
  · exact hr.changes
  · rw [he]
    exact hr.changes.tail (.pop t f .failed hf)

theorem enterNotReady_changes (s : Session σ τ) : Changes o s s.enterNotReady := by
  rcases enterNotReady_cases s with he | ⟨hn, hs, hr⟩
  · rw [he]
  · exact (ReflTransGen.single (.await s hn hs)).trans hr.changes

theorem afterNative_changes (h : s.Sound) {id k : Nat} {i : Instruction}
    (hl : s.HoldsLine id k i) (x : LineResult) : Changes o s (s.afterNative id k i x).2 := by
  rcases afterNative_cases s id k i x with ha | ha | ⟨y, ha⟩ | ⟨t, u, hr, hu, ha⟩
  · rw [ha]
  · have h1 : Changes o s (s.modifyNative id fun w => { w with cursor := k }) :=
      .single (.goTo s id (fun _ => k) fun f hf hi w hw => Nat.le_of_lt (hl.lt f hf hi w hw))
    rw [ha]
    exact h1.trans ((enterNotReady_changes _).trans (remarked_emitStatus _).changes)
  · rw [ha]
    exact settle_changes s id i y
  · have h1 : Changes o s t := hr.changes
    have h2 : Changes o s u := by
      rcases hu with rfl | ⟨hc, rfl⟩
      · exact h1
      · exact h1.trans (loopBoundary_changes (Changes.sound h1 h) (hl.remarked hr) hc)
    rcases ha with ha | ha
    · rw [ha]
      exact h2
    · rw [ha]
      exact h2.trans (popIfDone_changes u id)

theorem Sound.eq_of_id (h : s.Sound) {f g : Frame τ} (hf : f ∈ s.stack) (hg : g ∈ s.stack)
    (hi : f.id = g.id) : f = g :=
  Session.eq_of_id h.numbered hf hg hi

theorem frame?_of_mem (h : s.Sound) {f : Frame τ} (hf : f ∈ s.stack) : s.frame? f.id = some f := by
  cases hx : s.frame? f.id with
  | none =>
    have := List.find?_eq_none.1 hx f hf
    simp at this
  | some g =>
    obtain ⟨hg, hi⟩ := frame?_some hx
    rw [h.eq_of_id hg hf hi]

theorem Sound.owns_lt (h : s.Sound) {id : Nat} (hid : s.owns id) : id < s.nextId := by
  obtain ⟨f, hf, rfl⟩ := (owns_iff s id).1 hid
  exact h.fresh f hf

theorem modifyNative_owns (s : Session σ τ) (id j : Nat) (g : NativeWork → NativeWork) :
    (s.modifyNative id g).owns j = s.owns j :=
  owns_of_ids (modifyNative_map (fun _ _ => rfl) s id g) j

theorem modifyScript_owns (s : Session σ τ) (id j : Nat) (g : ScriptWork τ → ScriptWork τ) :
    (s.modifyScript id g).owns j = s.owns j :=
  owns_of_ids (modifyScript_map (fun _ _ => rfl) s id g) j

/-- A line is handed over, and the driver waits for what it comes to. -/
theorem perform_changes (h : s.Sound) {f : Frame τ} {i : Instruction}
    (hg : s.owns f.id ∨ Journal.StopSinceResume f.id s.journal) :
    Changes o s (s.perform (.ofOracle b o) b f i).2 :=
  .head (.hand s f.id i hg) ((meanwhile b o).perform h f i).changes

theorem HoldsLine.perform (h : s.Sound) {f : Frame τ} {k : Nat} {i : Instruction}
    (hl : s.HoldsLine f.id k i) (hf : s.owns f.id) :
    (s.perform (.ofOracle b o) b f i).2.HoldsLine f.id k i :=
  HoldsLine.after (s := s.record (.handed f.id i)) hl (h.owns_lt hf) ((meanwhile b o).perform h f i)

theorem stepOver_spec (h : s.Sound) {f : Frame τ} {w : NativeWork} {i : Instruction}
    (hf : f ∈ s.stack) (hw : f.work = .native w) (hi : w.instructions[w.cursor]? = some i) :
    Changes o s (s.stepOver f.id) ∧ (s.stepOver f.id).owns f.id ∧
      (s.stepOver f.id).HoldsLine f.id w.cursor i := by
  refine ⟨?_, ?_, ?_⟩
  · refine (ReflTransGen.single ?_).trans (remarked_emitStatus _).changes
    refine .goTo s f.id (·.cursor + 1) fun g hg hid v hv => ?_
    obtain rfl := h.eq_of_id hg hf hid
    obtain rfl : w = v := by simpa [hw] using hv
    exact (List.getElem?_eq_some_iff.1 hi).1
  · exact (modifyNative_owns s f.id f.id _).trans ((owns_iff s f.id).2 ⟨f, hf, rfl⟩)
  · -- the frame of the line is the only one that is moved on
    intro g hg hid v hv
    obtain ⟨g', hg', rfl⟩ := List.mem_map.1 hg
    split at hid
    · next hid' =>
      obtain rfl := h.eq_of_id hg' hf hid'
      simp only [hw, ↓reduceIte, Work.native.injEq] at hv
      rw [← hv]
      exact hi
    · next hid' => exact absurd hid hid'

theorem advanceNative_changes (h : s.Sound) {f : Frame τ} {w : NativeWork} (hf : f ∈ s.stack)
    (hw : f.work = .native w) : Changes o s (s.advanceNative (.ofOracle b o) b f w).2 := by
  rcases advanceNative_cases (.ofOracle b o) b s f w with ha | ⟨i, t, hi, rfl, ha⟩
  · rw [ha]
    exact .single (.pop s f .completed hf)
  · obtain ⟨h1, hown, hline⟩ := stepOver_spec (o := o) h hf hw hi
    have hs := Changes.sound h1 h
    have h2 := h1.trans (perform_changes (b := b) (i := i) hs (.inl hown))
    rcases ha with ha | ⟨x, ha⟩
    · rw [ha]
      exact h2
    · rw [ha]
      exact h2.trans (afterNative_changes (Changes.sound h2 h) (hline.perform hs hown) x)

/-! Scripts. -/

theorem script_change (s : Session σ τ) (id : Nat) (g : ScriptWork τ → ScriptWork τ) :
    Changes o s (s.modifyScript id g) := .single (.script s id g)

theorem afterScript_changes (h : s.Sound) (id : Nat) (line : String) (i : Instruction)
    (x : LineResult) : Changes o s (s.afterScript id line i x).2 := by
  rcases afterScript_cases s id line i x with ha | ha | ⟨y, t, rfl, ha⟩
  · rw [ha]
  · rw [ha]
    exact (script_change s id _).trans (enterNotReady_changes _)
  · have h1 := script_change (o := o) s id fun w => { w with pendingResult := .flag y.ok }
    rcases ha with ha | ⟨-, u, hr, ha⟩
    · rw [ha]
      exact h1.trans (settle_changes _ id i y)
    · have h2 := h1.trans hr.changes
      rw [ha]
      exact h2.trans (loopFlags_changes (Changes.sound h2 h) id)

/-- May a line of a frame be handed over? The frame is still there, or a stop came in while its
script was resumed. -/
def MayHand (s : Session σ τ) (id : Nat) : Prop :=
  s.owns id ∨ Journal.StopSinceResume id s.journal

theorem scriptLine_changes (h : s.Sound) {f : Frame τ} (hf : s.MayHand f.id) (line : String)
    (k : Int) : Changes o s (s.scriptLine (.ofOracle b o) b f line k).2 := by
  rcases scriptLine_cases (.ofOracle b o) b s f line k with ⟨t, p, hr, ha⟩ | ⟨i, t, rfl, ha⟩
  · rw [ha]
    exact hr.changes.trans (script_change t f.id _)
  · have h1 : Changes o s s.emitStatus := (remarked_emitStatus s).changes
    have h2 : Changes o s (s.emitStatus.perform (.ofOracle b o) b f i).2 := by
      refine h1.trans (perform_changes (Changes.sound h1 h) ?_)
      refine hf.imp_right ?_
      rintro ⟨q, v, p, x, hj, hq, hx⟩
      refine ⟨.status s.status :: q, v, p, x, ?_, ?_, by simp [hx]⟩
      · exact congrArg _ hj
      · simpa using hq
    rcases ha with ha | ⟨x, ha⟩
    · rw [ha]
      exact h2
    · rw [ha]
      exact h2.trans (afterScript_changes (Changes.sound h2 h) f.id line i x)

/-- A step of a script; afterwards its line may be handed over. -/
theorem scriptStep_spec (h : s.Sound) {f : Frame τ} (hf : f ∈ s.stack) (w : ScriptWork τ) :
    Changes o s (s.scriptStep (.ofOracle b o) b f w).2 ∧
      (s.scriptStep (.ofOracle b o) b f w).2.MayHand f.id := by
  have hown : s.owns f.id := (owns_iff s f.id).2 ⟨f, hf, rfl⟩
  unfold scriptStep
  split
  · exact ⟨script_change s f.id _, .inl ((modifyScript_owns s f.id f.id _).trans hown)⟩
  · exact ⟨script_change s f.id _, .inl ((modifyScript_owns s f.id f.id _).trans hown)⟩
  · next run a _ =>
    dsimp only
    let v := if w.run.started then w.pendingResult else .null
    have h1 : Changes o s (s.record (.sent f.id v)) := .single (.send s f.id v hown)
    have h2 := h1.trans
      (script_change (s.record (.sent f.id v)) f.id fun w => { w with run := run })
    have h3 := (meanwhile b o).hostCalls a.hostCalls (Changes.sound h2 h)
    have hown' : ((s.record (.sent f.id v)).modifyScript f.id fun w => { w with run := run }).owns
        f.id := (modifyScript_owns _ f.id f.id _).trans hown
    refine ⟨(h2.trans h3.changes).trans (script_change _ f.id _), ?_⟩
    rcases h3.spares f.id hown' with hk | ⟨es, x, hx, hj⟩
    · exact .inl ((modifyScript_owns _ f.id f.id _).trans hk)
    · obtain ⟨es', he, hj'⟩ := h3.reports
      obtain rfl : es = es' := List.append_cancel_right (hj.symm.trans hj')
      refine .inr ⟨es, v, s.journal, x, hj, fun u hu => ?_, hx⟩
      exact he _ hu rfl

theorem advanceScript_changes (h : s.Sound) {f : Frame τ} {w : ScriptWork τ} (hf : f ∈ s.stack) :
    Changes o s (s.advanceScript (.ofOracle b o) b f w).2 := by
  have hown : s.owns f.id := (owns_iff s f.id).2 ⟨f, hf, rfl⟩
  rcases advanceScript_cases (.ofOracle b o) b s f w with ⟨line, k, ha⟩ | ⟨t, rfl, ha⟩
  · have h1 := script_change (o := o) s f.id fun w => { w with pendingLine := none }
    rw [ha]
    exact h1.trans (scriptLine_changes (Changes.sound h1 h)
      (.inl ((modifyScript_owns s f.id f.id _).trans hown)) line k)
  · obtain ⟨h1, hmay⟩ := scriptStep_spec (o := o) (b := b) h hf w
    rcases ha with ⟨u, r, hr, ha⟩ | ⟨line, k, ha⟩
    · rw [ha]
      exact (h1.trans hr.changes).trans (popIfOwned_changes u f.id r)
    · have h2 := h1.trans (script_change _ f.id fun w => { w with steps := w.steps + 1 })
      rw [ha]
      refine h2.trans (scriptLine_changes (Changes.sound h2 h) ?_ line k)
      exact hmay.imp_left (modifyScript_owns _ f.id f.id _).trans

/-! Operations. -/

theorem begin_changes (s : Session σ τ) : Changes o s s.begin := by
  unfold Session.begin
  split
  · exact .single (.clear s)
  · exact .refl

theorem advanceTop_changes (h : s.Sound) : Changes o s (s.advanceTop (.ofOracle b o) b).2 := by
  unfold advanceTop
  split
  · next ht => exact .single (.rest _ (List.getLast?_eq_none_iff.1 ht))
  · next f ht =>
    split
    · next w hw => exact advanceNative_changes h (top?_mem ht) hw
    · exact advanceScript_changes h (top?_mem ht)

theorem advance_changes (h : s.Sound) : Changes o s (s.advance (.ofOracle b o) b).2 :=
  (begin_changes s).trans (advanceTop_changes ((begin_changes (o := o) s).sound h))

theorem recover_changes (h : s.Sound) : Changes o s (s.recover (.ofOracle b o)) := by
  unfold recover
  split
  · next hn =>
    have h1 := ((meanwhile b o).respond .ready h).changes
    have hp := h1.prior h (h.prior hn)
    dsimp only
    split
    · unfold leaveNotReady
      exact (h1.tail (.leave _ hp)).trans (remarked_log _ _ _).changes
    · exact h1
  · exact .refl

theorem tickStart_meanwhile (h : s.Sound) :
    Meanwhile o (s.recover (.ofOracle b o)) (s.tickStart (.ofOracle b o)) :=
  (meanwhile b o).respond .ready (Changes.sound (recover_changes (o := o) h) h)

theorem stepStart_meanwhile (h : s.Sound) : Meanwhile o s (s.stepStart (.ofOracle b o)) :=
  (meanwhile b o).respond .ready h

theorem tick_changes (h : s.Sound) : Changes o s (s.tick (.ofOracle b o) b).2 := by
  have h1 := recover_changes (o := o) (b := b) h
  have h2 := h1.trans (tickStart_meanwhile h).changes
  rcases tick_cases (.ofOracle b o) b s with ⟨-, ht⟩ | ⟨-, ht⟩ | ⟨-, ht⟩
  · rw [ht]; exact h1
  · rw [ht]; exact h2.trans (enterNotReady_changes _)
  · rw [ht]; exact h2.trans (advance_changes (Changes.sound h2 h))

theorem step_changes (h : s.Sound) : Changes o s (s.step (.ofOracle b o) b).2 := by
  have h1 := (stepStart_meanwhile (o := o) (b := b) h).changes
  have h2 := h1.trans (advance_changes (b := b) (Changes.sound h1 h))
  rcases step_cases (.ofOracle b o) b s with
    ht | ⟨-, ht⟩ | ⟨-, e, s', ha, ht⟩ | ⟨-, a, s', ha, ht⟩
  · rw [ht]
  · rw [ht]; exact h1.trans (enterNotReady_changes _)
  · rw [ha] at h2
    rw [ht]; exact h2
  · rw [ha] at h2
    rw [ht]
    dsimp only
    split
    · next hst =>
      simp only [Bool.and_eq_true, decide_eq_true_eq] at hst
      exact h2.tail (.pause s' hst.1)
    · exact h2

theorem operation_changes (h : s.Sound) (x : Operation) :
    Changes o s (x.apply (.ofOracle b o) b s) := by
  cases x with
  | control c => exact (apply_meanwhile b c h).changes
  | tick => exact tick_changes h
  | step => exact step_changes h
  | shutdown => exact (stop_spec h).1.tail (.close _)
  | edit tree settings => exact .single (.edit s tree settings)

theorem operate_changes (h : s.Sound) (xs : List Operation) :
    Changes o s (s.operate (.ofOracle b o) b xs) := by
  induction xs generalizing s with
  | nil => exact .refl
  | cons x xs ih =>
    have h1 := operation_changes (o := o) (b := b) h x
    exact h1.trans (ih (Changes.sound h1 h))

/-- Every session that comes about is reached by elementary changes. -/
theorem Reachable.changes (h : Reachable (.ofOracle b o) b s) :
    ∃ tree settings registry client,
      Changes o (Session.idle tree settings registry client) s := by
  induction h with
  | idle tree settings registry client => exact ⟨tree, settings, registry, client, .refl⟩
  | after x _ ih =>
    obtain ⟨tree, settings, registry, client, hc⟩ := ih
    exact ⟨tree, settings, registry, client, hc.trans (operation_changes (hc.sound (.idle ..)) x)⟩

theorem Reachable.sound (h : Reachable (.ofOracle b o) b s) : s.Sound := by
  obtain ⟨tree, settings, registry, client, hc⟩ := h.changes
  exact hc.sound (.idle tree settings registry client)

/-! What was told stays told. -/

theorem Remarked.journal_suffix {u v : Session σ τ} (h : Remarked u v) : u.journal <:+ v.journal := by
  obtain ⟨es, -, rfl⟩ := h
  exact List.suffix_append _ _

theorem popAll_journal_suffix (fs : List (Frame τ)) (r : FrameResult) (s : Session σ τ) :
    s.journal <:+ (fs.foldl (fun s f => s.pop f r) s).journal := by
  induction fs generalizing s with
  | nil => exact List.suffix_refl _
  | cons f fs ih =>
    refine List.IsSuffix.trans ?_ (ih (s.pop f r))
    rw [pop_eq]
    exact List.suffix_append _ _

theorem loopFlags_journal_suffix (s : Session σ τ) (id : Nat) :
    s.journal <:+ (s.loopFlags id).journal := by
  rcases loopFlags_cases s id with he | ⟨t, hr, he⟩ | ⟨f, t, -, -, rfl, hr⟩
  · exact he.symm ▸ List.suffix_refl _
  · rw [he]
    exact hr.journal_suffix.trans (popAll_journal_suffix _ _ { t with stopEvent := true })
  · refine List.IsSuffix.trans ?_ hr.journal_suffix
    split
    · rw [setState_eq]
      exact List.suffix_append _ _
    · exact List.suffix_refl _

theorem loopBoundary_journal_suffix (s : Session σ τ) (id k : Nat) (count : Option Int) :
    s.journal <:+ (s.loopBoundary id k count).2.journal := by
  rcases loopBoundary_cases s id k count with ht | ht | ⟨t, hr, ht | ht⟩
  · exact ht.symm ▸ List.suffix_refl _
  · rw [ht]
    exact loopFlags_journal_suffix s id
  · rw [ht]
    exact hr.journal_suffix
  · rw [ht]
    exact hr.journal_suffix.trans (loopFlags_journal_suffix t id)

theorem settle_journal_suffix (s : Session σ τ) (id : Nat) (i : Instruction) (x : Outcome) :
    s.journal <:+ (s.settle id i x).2.journal :=
  Changes.journal_suffix (settle_changes (o := .still) s id i x)

theorem enterNotReady_journal_suffix (s : Session σ τ) : s.journal <:+ s.enterNotReady.journal :=
  Changes.journal_suffix (enterNotReady_changes (o := .still) s)

theorem afterNative_journal_suffix (s : Session σ τ) (id k : Nat) (i : Instruction)
    (x : LineResult) : s.journal <:+ (s.afterNative id k i x).2.journal := by
  rcases afterNative_cases s id k i x with ha | ha | ⟨y, ha⟩ | ⟨t, u, hr, hu, ha⟩
  · exact ha.symm ▸ List.suffix_refl _
  · rw [ha]
    exact (enterNotReady_journal_suffix (s.modifyNative id _)).trans (List.suffix_cons _ _)
  · rw [ha]
    exact settle_journal_suffix s id i y
  · have h1 : s.journal <:+ u.journal := by
      rcases hu with rfl | ⟨-, rfl⟩
      · exact hr.journal_suffix
      · exact hr.journal_suffix.trans (loopBoundary_journal_suffix t id k _)
    rcases ha with ha | ha <;> rw [ha]
    · exact h1
    · exact h1.trans (Changes.journal_suffix (popIfDone_changes (o := .still) u id))

theorem afterScript_journal_suffix (s : Session σ τ) (id : Nat) (line : String)
    (i : Instruction) (x : LineResult) : s.journal <:+ (s.afterScript id line i x).2.journal := by
  rcases afterScript_cases s id line i x with ha | ha | ⟨y, t, rfl, ha | ⟨-, u, hr, ha⟩⟩
  · exact ha.symm ▸ List.suffix_refl _
  · rw [ha]
    exact enterNotReady_journal_suffix (s.modifyScript id _)
  · rw [ha]
    exact settle_journal_suffix (s.modifyScript id _) id i y
  · rw [ha]
    exact List.IsSuffix.trans hr.journal_suffix (loopFlags_journal_suffix u id)

end Session

end Macros
