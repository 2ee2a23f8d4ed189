import Macros.Proofs.Scheduler.Onward

/-!
A tick in which a loop line is completed. The line itself leaves the frames as they are; then the marks
of its frame decide whether everything is stopped, or the run is paused, or it goes on.
-/

namespace Macros

/-- The frames that ended and how, the latest first. -/
def Journal.finishes (es : List Event) : List (Value × FrameResult) :=
  es.filterMap fun
    | .finished name r => some (name, r)
    | _ => none

theorem Journal.finishes_append (p q : List Event) :
    finishes (p ++ q) = finishes p ++ finishes q :=
  List.filterMap_append

namespace Session

open Journal

variable {σ τ : Type} {o : Oracle σ τ} {b : Bridge τ} {s s' s'' : Session σ τ} {l : Flight σ τ}
  {f g : Frame τ}

/-! What leads up to the line, and the line itself. -/

/-- The frames are the same but for their work, and a run that went on still does. -/
structure Unmoved (s s' : Session σ τ) (es : List Event) : Prop where
  tags : s'.stack.map (·.tag) = s.stack.map (·.tag)
  tree : s'.tree = s.tree
  running : s.state = .running → s'.state = .running
  finishes : finishes es = []

/-- Nothing happens to the frames, if no control call comes in. -/
def Poised (s s' : Session σ τ) : Prop :=
  ∃ es, s'.journal = es ++ s.journal ∧ ((∀ e ∈ es, ¬e.isControl) → Unmoved s s' es)

theorem Poised.refl (s : Session σ τ) : Poised s s := ⟨[], rfl, fun _ => ⟨rfl, rfl, id, rfl⟩⟩

theorem Unmoved.trans {es es' : List Event} (h : Unmoved s s' es) (h' : Unmoved s' s'' es') :
    Unmoved s s'' (es' ++ es) where
  tags := h'.tags.trans h.tags
  tree := h'.tree.trans h.tree
  running hr := h'.running (h.running hr)
  finishes := by rw [finishes_append, h'.finishes, h.finishes, List.append_nil]

theorem Poised.trans (h : Poised s s') (h' : Poised s' s'') : Poised s s'' := by
  obtain ⟨es, hj, hu⟩ := h
  obtain ⟨es', hj', hu'⟩ := h'
  refine ⟨es' ++ es, by rw [hj', hj, List.append_assoc], fun hc => ?_⟩
  obtain ⟨hc', hc⟩ := List.forall_mem_append.1 hc
  exact (hu hc).trans (hu' hc')

theorem finishes_of_remark {es : List Event} (h : ∀ e ∈ es, e.isRemark ∨ ∃ id v, e = .sent id v) :
    finishes es = [] := by
  refine List.filterMap_eq_nil_iff.2 fun e he => ?_
  rcases h e he with h | ⟨id, v, rfl⟩
  · cases e <;> first | rfl | cases h
  · rfl

theorem Worked.unmoved (h : Worked s s') : Unmoved s s' (s.news s') := by
  obtain ⟨fs, es, he, ht, rfl⟩ := h
  rw [@news_eq _ _ s _ es rfl]
  exact ⟨ht, rfl, id, finishes_of_remark he⟩

theorem Worked.poised (h : Worked s s') : Poised s s' := by
  have hu := h.unmoved
  obtain ⟨fs, es, -, -, rfl⟩ := h
  rw [@news_eq _ _ s _ es rfl] at hu
  exact ⟨es, rfl, fun _ => hu⟩

theorem begin_poised (s : Session σ τ) : Poised s s.begin := by
  unfold Session.begin
  split
  · exact ⟨[], rfl, fun _ => ⟨rfl, rfl, id, rfl⟩⟩
  · exact .refl s

/-- Where no control calls come in they leave nothing behind. -/
theorem LeftByCalls.poised (h : LeftByCalls b s s') : Poised s s' := by
  obtain ⟨es, hj, ha⟩ := h
  refine ⟨es, hj, fun hc => ?_⟩
  rw [calls_of_quiet hc] at ha
  obtain ⟨x, js, he, rfl⟩ := ha
  obtain rfl : js = es ++ s.journal := hj
  have hn : apart es = [] := by
    rw [apart, List.filter_append] at he
    exact List.append_left_eq_self.1 he
  refine ⟨rfl, rfl, id, List.filterMap_eq_nil_iff.2 fun e hm => ?_⟩
  have hx : e.isAccount := by simpa using List.filter_eq_nil_iff.1 hn e hm
  cases e <;> first | rfl | cases hx

theorem hostCalls_leftByCalls (n : Nat) (s : Session σ τ) :
    LeftByCalls b s (hostCalls (.ofOracle b o) n s) := by
  induction n generalizing s with
  | zero => exact .refl s
  | succ n ih => exact (respond_leftByCalls .hostCall s).trans (ih _)

theorem finishes_stateNews (s : Session σ τ) (x : RunState) : finishes (s.stateNews x) = [] :=
  List.filterMap_eq_nil_iff.2 fun e hm => by rw [stateNews_cases hm]

theorem leaveNotReady_view (s : Session σ τ) :
    ∃ es, s.leaveNotReady.journal = es ++ s.journal ∧ finishes es = [] ∧
      s.leaveNotReady.stack = s.stack ∧ s.leaveNotReady.tree = s.tree := by
  unfold leaveNotReady
  rw [setState_eq]
  exact ⟨.log .info (.text "Environment ready again") :: s.stateNews _, rfl,
    finishes_stateNews s _, rfl, rfl⟩

theorem recover_poised (s : Session σ τ) : Poised s (s.recover (.ofOracle b o)) := by
  have h1 := (respond_leftByCalls (b := b) (o := o) .ready s).poised
  unfold recover
  split
  · next hn =>
    dsimp only
    split
    · obtain ⟨es, hj, hu⟩ := h1
      obtain ⟨es', hj', hf, hs, ht⟩ := leaveNotReady_view (o.respond b .ready s).2
      refine ⟨es' ++ es, hj'.trans (by rw [hj, List.append_assoc]), fun hc => ?_⟩
      have h := hu (List.forall_mem_append.1 hc).2
      refine ⟨(congrArg _ hs).trans h.tags, ht.trans h.tree, fun hr => by simp [hn] at hr, ?_⟩
      rw [finishes_append, hf, h.finishes, List.append_nil]
    · exact h1
  · exact .refl s

/-- The session when a loop line has landed, if no control call has come in since its tick began. -/
theorem loop_landed (h : s.Sound) (hl : s.tickFlight? (.ofOracle b o) b = some l)
    (hc : l.line.command = "loop")
    (hn : ∀ e ∈ s.news (l.landed (.ofOracle b o) b).2, ¬e.isControl) :
    Unmoved s (l.landed (.ofOracle b o) b).2 (s.news (l.landed (.ofOracle b o) b).2) ∧
      (l.landed (.ofOracle b o) b).2.state = .running ∧ (l.landed (.ofOracle b o) b).2.Sound ∧
      ∃ f ∈ s.stack, f.tag = l.frame.tag := by
  have hf := tickFlight?_some hl
  have hs := Changes.sound (recover_changes (o := o) (b := b) h) h
  have hm := tickStart_meanwhile (o := o) (b := b) h
  have hs' := hm.changes.sound hs
  obtain ⟨ht, n, t, hr, hr'⟩ := flight_readied hf.2
  have hp : l.line.command ≠ "runmacro" := by simp [hc]
  have h0 := recover_poised (b := b) (o := o) s
  have h1 : Poised (s.recover (.ofOracle b o)) (s.tickStart (.ofOracle b o)).begin :=
    ((respond_leftByCalls .ready _).poised).trans (begin_poised _)
  have h2 : Poised (s.tickStart (.ofOracle b o)).begin (l.landed (.ofOracle b o) b).2 :=
    hr.worked.poised.trans (((hostCalls_leftByCalls n t).poised.trans hr'.worked.poised).trans
      (perform_leftByCalls l.session l.frame hp).poised)
  obtain ⟨e₀, j₀, u₀⟩ := h0
  obtain ⟨e₁, j₁, u₁⟩ := h1
  obtain ⟨e₂, j₂, u₂⟩ := h2
  have hj : (l.landed (.ofOracle b o) b).2.journal = (e₂ ++ (e₁ ++ e₀)) ++ s.journal := by
    rw [j₂, j₁, j₀]
    simp
  rw [news_eq hj] at hn ⊢
  obtain ⟨n₂, n₁, n₀⟩ := List.forall_mem_append.1 hn |>.imp_right List.forall_mem_append.1
  have hb := (u₀ n₀).trans (u₁ n₁)
  refine ⟨hb.trans (u₂ n₂), (u₂ n₂).running ((u₁ n₁).running hf.1), ?_, ?_⟩
  · have hl := (flight_spec hs' hf.2).1
    exact ((meanwhile b o).perform hl l.frame l.line).changes.sound (hl.of_eq rfl rfl rfl rfl)
  · exact tags_of_map hb.tags _ (top?_mem ht)

/-! What follows the line. -/

theorem frame?_of_tags (h : s'.stack.map (·.tag) = s.stack.map (·.tag)) {id : Nat}
    (hf : s.frame? id = some f) : ∃ g, s'.frame? id = some g ∧ g.tag = f.tag := by
  have hm : ∀ t : Session σ τ,
      (t.frame? id).map (·.tag) = (t.stack.map (·.tag)).find? (·.1 = id) := fun t => by
    rw [List.find?_map]
    rfl
  have hg : (s'.frame? id).map (·.tag) = some f.tag := by rw [hm s', h, ← hm s, hf]; rfl
  exact Option.map_eq_some_iff.1 hg

theorem finishes_popNews (s : Session σ τ) (f : Frame τ) (r : FrameResult) :
    finishes (s.popNews f r) = [(s.nameOf f, r)] := by
  unfold popNews
  split <;> split <;> simp [finishes]

/-- Every frame that is taken off is reported, the latest first. -/
theorem pops_finishes (fs : List (Frame τ)) (r : FrameResult) (s : Session σ τ) :
    ∃ es, (fs.foldl (fun s f => s.pop f r) s).journal = es ++ s.journal ∧
      finishes es = (fs.map fun f => (s.nameOf f, r)).reverse := by
  induction fs generalizing s with
  | nil => exact ⟨[], rfl, rfl⟩
  | cons f fs ih =>
    obtain ⟨es, hj, he⟩ := ih (s.pop f r)
    have hn : ∀ g, (s.pop f r).nameOf g = s.nameOf g := fun g => by rw [pop_eq]; rfl
    refine ⟨es ++ s.popNews f r, ?_, ?_⟩
    · rw [List.foldl_cons, hj, pop_eq]
      simp
    · simp only [finishes_append, he, finishes_popNews, hn, List.map_cons, List.reverse_cons]

theorem halt_finishes (s : Session σ τ) :
    ∃ es, s.halt.journal = es ++ s.journal ∧
      finishes es = s.stack.map fun f => (s.nameOf f, .stopped) := by
  obtain ⟨es, hj, he⟩ := pops_finishes s.stack.reverse .stopped { s with stopEvent := true }
  refine ⟨es, hj, he.trans ?_⟩
  rw [List.map_reverse, List.reverse_reverse]
  rfl

theorem completesLoop_ok {i : Instruction} {x : Outcome} (h : completesLoop i x) : x.ok := by
  simp only [completesLoop, Bool.and_eq_true, beq_iff_eq] at h
  simp [Outcome.ok, h.2]

theorem settle_ok {id : Nat} (hg : s.frame? id = some g) (i : Instruction) {x : Outcome} (hx : x.ok) :
    s.settle id i x = (.ok true, s) := by
  unfold settle
  rw [hg]
  simp [hx]

/-- Passing a loop line comes to looking at the marks, unless the settings cannot be read by which it is
reported. -/
theorem loopBoundary_marks {id : Nat} (hg : s.frame? id = some g) (k : Nat) (n : Option Int) :
    (g.stopAtLoop = false ∧ ∃ e t, Worked s t ∧ s.loopBoundary id k n = (.error e, t)) ∨
    ∃ t, Worked s t ∧ (g.stopAtLoop → t = s) ∧ s.loopBoundary id k n = (.ok (), t.loopFlags id) := by
  unfold loopBoundary
  rw [hg]
  dsimp only
  split
  · exact .inr ⟨s, (Remarked.refl s).worked, fun _ => rfl, rfl⟩
  · next hs =>
    have hs : g.stopAtLoop = false := by simpa using hs
    have hn : ∀ t : Session σ τ, g.stopAtLoop = true → t = s := fun t h => by simp [hs] at h
    split
    · exact .inr ⟨s, (Remarked.refl s).worked, fun _ => rfl, rfl⟩
    · next w _ =>
      have h1 := modifyNative_worked s id fun w => passLoop w k n
      have h2 := (reportLoop_remarked (s.modifyNative id fun w => passLoop w k n)
        ((s.modifyNative id fun w => passLoop w k n).nameOf g) (w.loopsDone + 1) n).worked
      split
      · split
        · next hr =>
          rw [hr] at h2
          exact .inl ⟨hs, _, _, h1.trans h2, rfl⟩
        · next hr =>
          rw [hr] at h2
          exact .inr ⟨_, h1.trans h2, hn _, rfl⟩
      · exact .inr ⟨_, h1, hn _, rfl⟩

/-- A loop line that went through leaves it to the marks of its frame what happens. -/
theorem follow_loop (h : s.Sound) (hg : s.frame? l.frame.id = some g) {x : Outcome}
    (hx : completesLoop l.line x) :
    (g.stopAtLoop = false ∧ ∃ e t, Worked s t ∧ l.follow s (some x) = (.error e, t)) ∨
    ∃ t, Worked s t ∧ (g.stopAtLoop → t.Sound) ∧
      (l.follow s (some x) = (.ok true, t.loopFlags l.frame.id) ∨
        l.follow s (some x) = (.ok true, (t.loopFlags l.frame.id).popIfDone l.frame.id)) := by
  have hok := completesLoop_ok hx
  unfold Flight.follow
  split
  · next k _ =>
    unfold afterNative
    dsimp only
    rw [settle_ok hg l.line hok]
    simp only [hx, ↓reduceIte]
    rcases loopBoundary_marks hg k (loopCount l.line) with ⟨hs, e, t, ht, hr⟩ | ⟨t, ht, hs, hr⟩
    · rw [hr]
      exact .inl ⟨hs, e, t, ht, rfl⟩
    · rw [hr]
      exact .inr ⟨t, ht, fun hm => by rw [hs hm]; exact h, .inr rfl⟩
  · next line _ =>
    have h1 := modifyScript_readied s l.frame.id fun w => { w with pendingResult := .flag x.ok }
    obtain ⟨g', hg', -⟩ := frame?_of_tags h1.worked.unmoved.tags hg
    unfold afterScript
    dsimp only
    rw [settle_ok hg' l.line hok]
    simp only [hx, ↓reduceIte]
    exact .inr ⟨_, h1.worked, fun _ => h1.sound h, .inl rfl⟩

end Session

end Macros
