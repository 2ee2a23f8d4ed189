import Macros.Proofs.Scheduler.Standing

/-!
Ticks of a run that nothing disturbs. Each of them hands one line over or takes one frame off, and
one knows which frames there are afterwards and where they stand.
-/

namespace Macros

variable {σ τ : Type}

/-- The options that are looked up while a macro runs can be read. -/
structure Settings.Usable (s : Settings) : Prop where
  loopEcho : ∃ x, s.loopEcho = .ok x
  stopsOn : ∀ kind, ∃ x, s.stopsOn kind = .ok x

theorem Settings.Usable.isStopWorthy {s : Settings} (h : s.Usable) (x : Outcome) :
    ∃ y, s.isStopWorthy x = .ok y := by
  unfold Settings.isStopWorthy
  split
  · exact ⟨_, rfl⟩
  · split
    · exact h.stopsOn _
    · exact ⟨_, rfl⟩

/-- An outcome for which the settings say that the macro is stopped. -/
def Event.stopsMacro (settings : Settings) : Event → Bool
  | settled _ _ x => (settings.isStopWorthy x).toOption == some true
  | _ => false

instance {α : Type} : (x : Except Fault α) → Decidable (x = .error .endless)
  | .error .endless => isTrue rfl
  | .error (.unavailable _) | .error (.failure _ _) | .error (.lookup _) | .error (.option _)
  | .error (.write _) | .error (.broken _) | .error (.misfit _) => isFalse (by simp)
  | .ok _ => isFalse (by simp)

/-- Does the operation return? It does not if its line waits without an end. -/
def Operation.Returns (c : Client σ τ) (b : Bridge τ) (s : Session σ τ) : Operation → Prop
  | tick => (s.tick c b).1 ≠ .error .endless
  | step => (s.step c b).1 ≠ .error .endless
  | _ => True

instance (c : Client σ τ) (b : Bridge τ) (s : Session σ τ) : (x : Operation) →
    Decidable (x.Returns c b s)
  | .tick => inferInstanceAs (Decidable (_ ≠ _))
  | .step => inferInstanceAs (Decidable (_ ≠ _))
  | .control _ | .shutdown | .edit _ _ => isTrue trivial

namespace Session

/-- Does each of the operations return? -/
def Returns (c : Client σ τ) (b : Bridge τ) (s : Session σ τ) : List Operation → Prop
  | [] => True
  | x :: xs => x.Returns c b s ∧ (x.apply c b s).Returns c b xs

instance (c : Client σ τ) (b : Bridge τ) : (s : Session σ τ) → (xs : List Operation) →
    Decidable (s.Returns c b xs)
  | _, [] => isTrue trivial
  | s, x :: xs =>
    have := instDecidableReturns c b (x.apply c b s) xs
    inferInstanceAs (Decidable (x.Returns c b s ∧ (x.apply c b s).Returns c b xs))

variable {o : Oracle σ τ} {b : Bridge τ} {s t u : Session σ τ} {base fs : List (Frame τ)}
  {f : Frame τ} {w : NativeWork} {i : Instruction} {js : List Instruction}

/-- Several ticks, one after the other. -/
def ticks (c : Client σ τ) (b : Bridge τ) (s : Session σ τ) (k : Nat) : Session σ τ :=
  s.operate c b (List.replicate k .tick)

theorem ticks_add (c : Client σ τ) (b : Bridge τ) (s : Session σ τ) (j k : Nat) :
    s.ticks c b (j + k) = (s.ticks c b j).ticks c b k := by
  unfold ticks operate
  rw [List.replicate_add, List.foldl_append]

theorem ticks_one (c : Client σ τ) (b : Bridge τ) (s : Session σ τ) :
    s.ticks c b 1 = (s.tick c b).2 := rfl

theorem ticks_succ (c : Client σ τ) (b : Bridge τ) (s : Session σ τ) (k : Nat) :
    s.ticks c b (k + 1) = ((s.ticks c b k).tick c b).2 := by
  rw [ticks_add, ticks_one]

theorem ticks_tail (c : Client σ τ) (b : Bridge τ) (s : Session σ τ) (k : Nat) :
    s.ticks c b (k + 1) = ((s.tick c b).2).ticks c b k := by
  rw [Nat.add_comm, ticks_add, ticks_one]

/-- Where many ticks return, each of them does. -/
theorem returns_ticks {c : Client σ τ} {k n : Nat} (h : s.Returns c b (List.replicate k .tick))
    (hn : n < k) : Operation.tick.Returns c b (s.ticks c b n) := by
  induction k generalizing s n with
  | zero => contradiction
  | succ k ih =>
    cases n with
    | zero => exact h.1
    | succ n =>
      rw [ticks_tail]
      exact ih h.2 (Nat.lt_of_succ_lt_succ hn)

/-- The tick ends, and its line comes to nothing that stops a macro. -/
structure Smooth (c : Client σ τ) (b : Bridge τ) (s : Session σ τ) : Prop where
  ends : (s.tick c b).1 ≠ .error .endless
  goesOn : ∀ e ∈ s.news (s.tick c b).2, ¬e.stopsMacro s.settings

instance (c : Client σ τ) (b : Bridge τ) (s : Session σ τ) : Decidable (s.Smooth c b) :=
  decidable_of_iff
    ((s.tick c b).1 ≠ .error .endless ∧
      ∀ e ∈ s.news (s.tick c b).2, ¬e.stopsMacro s.settings)
    ⟨fun h => ⟨h.1, h.2⟩, fun h => ⟨h.ends, h.goesOn⟩⟩

/-! One tick. -/

theorem tick_idle (c : Client σ τ) (b : Bridge τ) (h : t.state = .idle) :
    t.tick c b = (.ok false, t) := by
  have hr : t.recover c = t := by simp [recover, h]
  unfold tick
  rw [hr]
  simp [h]

theorem tick_running (ho : o.Steady) (h : t.state = .running) :
    ∃ u, Aside t u ∧ t.tick (.ofOracle b o) b = u.advanceTop (.ofOracle b o) b := by
  have hr : t.recover (.ofOracle b o) = t := by simp [recover, h]
  have hc : (Client.ofOracle b o).ready t = (true, { t with client := (o .ready t).2.2 }) := by
    rw [← ho.ready t]
    exact respond_silent ho.still .ready t
  refine ⟨{ t with client := (o .ready t).2.2 }.begin, ?_, ?_⟩
  · unfold Session.begin
    split
    · exact ⟨[], _, _, _, by simp, rfl⟩
    · exact client_aside t _
  · unfold tick
    rw [hr]
    show (if t.state ≠ .running then _
      else if ((Client.ofOracle b o).ready t).1 then
        ((Client.ofOracle b o).ready t).2.advance (.ofOracle b o) b else _) = _
    rw [if_neg (by simp [h]), hc, if_pos rfl]
    rfl

/-- A native macro advances. -/
theorem Standing.tick (ho : o.Steady) (h : Standing s (base ++ [f.doing w]) t) :
    ∃ u, Aside t u ∧ t.tick (.ofOracle b o) b = u.advanceNative (.ofOracle b o) b (f.doing w) w := by
  obtain ⟨u, hu, ht⟩ := tick_running (b := b) ho h.running
  refine ⟨u, hu, ?_⟩
  rw [ht]
  unfold advanceTop
  rw [(h.aside hu).top]
  rfl

/-- A macro that has no line left is taken off. -/
theorem tick_end (ho : o.Steady) (h : Standing s (base ++ [f.doing w]) t)
    (hw : w.instructions.length ≤ w.cursor) :
    Standing s base (t.tick (.ofOracle b o) b).2 ∧
      ∃ es, Passage t (t.tick (.ofOracle b o) b).2 [] es := by
  obtain ⟨u, hu, ht⟩ := h.tick (b := b) ho
  obtain ⟨es, hp⟩ := hu.passage
  obtain ⟨h1, es', hp'⟩ := (h.aside hu).pop
  have ha : u.advanceNative (.ofOracle b o) b (f.doing w) w = (.ok true, u.pop (f.doing w) .completed) := by
    unfold advanceNative
    rw [List.getElem?_eq_none hw]
  rw [ht, ha]
  exact ⟨h1, _, hp.trans hp'⟩

theorem advanceNative_ok {c : Client σ τ} {x : LineResult} (hi : w.instructions[w.cursor]? = some i)
    (hp : (s.stepOver f.id).perform c b f i = (.ok x, t)) :
    s.advanceNative c b f w = t.afterNative f.id w.cursor i x := by
  unfold stepOver at hp
  unfold advanceNative
  rw [hi]
  dsimp only
  rw [hp]

theorem advanceNative_error {c : Client σ τ} {e : Fault} (hi : w.instructions[w.cursor]? = some i)
    (hp : ((s.stepOver f.id).perform c b f i).1 = .error e) :
    (s.advanceNative c b f w).1 = .error e := by
  unfold stepOver at hp
  unfold advanceNative
  rw [hi]
  dsimp only
  split
  · next h => rw [h] at hp; exact congrArg _ (Except.error.inj hp)
  · next h => rw [h] at hp; simp at hp

/-- A line is handed over, and comes to an outcome. -/
theorem tick_performs {Q : Except Fault Outcome → Prop} {P : List (Frame τ) → Prop} (ho : o.Steady)
    (h : Standing s (base ++ [f.doing w]) t) (hi : w.instructions[w.cursor]? = some i)
    (he : (t.tick (.ofOracle b o) b).1 ≠ .error .endless)
    (hl : ∀ u, Standing s (base ++ [f.doing w.next]) u →
      Answered (u.lineRun (.ofOracle b o) b f i).1 ∧ Q (u.lineRun (.ofOracle b o) b f i).1 ∧
      (∃ fs, P fs ∧ Standing s fs (u.lineRun (.ofOracle b o) b f i).2) ∧
      ∃ es, Passage u (u.lineRun (.ofOracle b o) b f i).2 [i] es) :
    ∃ x u es r fs, P fs ∧ Standing s fs u ∧ Passage t u [i] es ∧ .settled f.id i x ∈ es ∧ Q r ∧
      r ≠ .error .endless ∧ (∀ y, r = .ok y → x = y) ∧
      t.tick (.ofOracle b o) b = u.afterNative f.id w.cursor i (some x) := by
  obtain ⟨u, hu, ht⟩ := h.tick (b := b) ho
  obtain ⟨es₁, hp₁⟩ := hu.passage
  -- the macro is moved past the line before the line is handed over
  have hv : Standing s (base ++ [f.doing w.next]) (u.stepOver f.id) :=
    ((h.aside hu).modifyNative NativeWork.next).aside (remarked_emitStatus _).aside
  obtain ⟨es₂, hp₂⟩ : ∃ es, Passage u (u.stepOver f.id) [] es := by
    obtain ⟨es, hp⟩ := (remarked_emitStatus (u.modifyNative f.id NativeWork.next)).aside.passage
    exact ⟨_, (modifyNative_passage u f.id NativeWork.next).trans hp⟩
  obtain ⟨ha, hq, ⟨fs, hf, hs⟩, es₃, hp₃⟩ := hl _ hv
  have he' : ((u.stepOver f.id).perform (.ofOracle b o) b (f.doing w) i).1 ≠ .error .endless := by
    intro hx
    rw [ht] at he
    exact he (advanceNative_error hi hx)
  obtain ⟨hn, x, z, hx, hz, hp⟩ := perform_answered (f := f.doing w) ha he'
  obtain ⟨es₄, hp₄⟩ := hz.aside.passage
  have hp₅ := passage_settled z f.id i x
  have hp₆ := (((hp₁.trans hp₂).trans hp₃).trans hp₄).trans hp₅
  refine ⟨x, z.record (.settled f.id i x), _, _, fs, hf, ?_, hp₆, by simp, hq, hn, hx, ?_⟩
  · exact (hs.aside hz.aside).aside (remarked_record z rfl).aside
  · rw [ht]
    exact advanceNative_ok hi hp

/-! What follows a line. -/

/-- An outcome lets the macro go on, or it stops it. -/
theorem settle_usable (hu : t.settings.Usable) (hf : t.frame? f.id = some f) (i : Instruction)
    (x : Outcome) :
    (∃ u, Remarked t u ∧ t.settle f.id i x = (.ok true, u)) ∨
      t.settings.isStopWorthy x = .ok true ∧
        ∃ u, Remarked t u ∧ t.settle f.id i x = (.ok false, u.pop f .failed) := by
  unfold settle
  rw [hf]
  dsimp only
  split
  · exact .inl ⟨t, .refl t, rfl⟩
  · obtain ⟨y, hy⟩ := hu.isStopWorthy x
    rw [hy]
    cases y with
    | true => exact .inr ⟨rfl, _, remarked_log t _ _, rfl⟩
    | false => exact .inl ⟨_, remarked_log t _ _, rfl⟩

theorem settle_steady (hu : s.settings.Usable) (h : Standing s fs t) (hf : f ∈ fs) (i : Instruction)
    (x : Outcome) :
    (∃ u, Remarked t u ∧ t.settle f.id i x = (.ok true, u)) ∨
      (t.settings.isStopWorthy x = .ok true ∧
        ∃ u es, u.journal = es ++ t.journal ∧ t.settle f.id i x = (.ok false, u)) := by
  rcases settle_usable (h.settings ▸ hu) (h.frame? hf) i x with hr | ⟨hw, u, hr, he⟩
  · exact .inl hr
  · obtain ⟨es, -, hj⟩ := hr.reports.trans (pop_reports u f .failed)
    exact .inr ⟨hw, _, es, hj, he⟩

/-- After a line that is no loop the macro goes on, if nothing stops it. -/
theorem afterNative_steady (hu : s.settings.Usable) (h : Standing s fs t) (hf : f ∈ fs)
    (hc : i.command ≠ "loop") (k : Nat) (x : Outcome) :
    (∃ u, Remarked t u ∧ t.afterNative f.id k i (some x) = (.ok true, u.popIfDone f.id)) ∨
      (t.settings.isStopWorthy x = .ok true ∧
        ∃ es, (t.afterNative f.id k i (some x)).2.journal = es ++ t.journal) := by
  unfold afterNative
  dsimp only
  rcases settle_steady hu h hf i x with ⟨u, hr, hs⟩ | ⟨hw, u, es, hj, hs⟩
  · rw [hs]
    have hn : completesLoop i x = false := by simp [completesLoop, hc]
    exact .inl ⟨u, hr, by simp [hn]⟩
  · rw [hs]
    exact .inr ⟨hw, es, hj⟩

/-- A tick with a line that is no loop. -/
theorem tick_passes {P : List (Frame τ) → Prop} (hu : s.settings.Usable) (ho : o.Steady)
    (h : Standing s (base ++ [f.doing w]) t) (hs : t.Smooth (.ofOracle b o) b)
    (hi : w.instructions[w.cursor]? = some i) (hc : i.command ≠ "loop")
    (hf : ∀ fs, P fs → f.doing w.next ∈ fs)
    (hl : ∀ u, Standing s (base ++ [f.doing w.next]) u →
      Answered (u.lineRun (.ofOracle b o) b f i).1 ∧
      (∃ fs, P fs ∧ Standing s fs (u.lineRun (.ofOracle b o) b f i).2) ∧
      ∃ es, Passage u (u.lineRun (.ofOracle b o) b f i).2 [i] es) :
    ∃ u es fs, P fs ∧ Standing s fs u ∧ Passage t u [i] es ∧
      t.tick (.ofOracle b o) b = (.ok true, u.popIfDone f.id) := by
  obtain ⟨x, u, es, -, fs, hP, h1, hp, hx, -, -, -, ht⟩ :=
    tick_performs (Q := fun _ => True) ho h hi hs.ends fun u hu => ⟨(hl u hu).1, trivial, (hl u hu).2⟩
  rcases afterNative_steady hu h1 (hf fs hP) hc w.cursor x with ⟨v, hr, ha⟩ | ⟨hw, es', hj⟩
  · obtain ⟨es', hp'⟩ := hr.aside.passage
    exact ⟨v, _, fs, hP, h1.aside hr.aside, hp.trans hp', ht.trans ha⟩
  · -- the outcome is in the news of the tick, so it cannot stop the macro
    have hn : t.news (t.tick (.ofOracle b o) b).2 = es' ++ es := by
      refine news_eq ?_
      rw [ht, show (u.afterNative f.id w.cursor i (some x)).2.journal = es' ++ u.journal from hj,
        hp.journal, List.append_assoc]
    have hg := hs.goesOn (.settled f.id i x) (by rw [hn]; exact List.mem_append_right _ hx)
    rw [h1.settings, ← h.settings] at hw
    simp [Event.stopsMacro, hw, Except.toOption] at hg

/-! Lines of a client that is there. -/

theorem lineRun_ends {Q : Except Fault Outcome → Prop} (ho : o.Steady) (h : Standing s fs u)
    (f : Frame τ) (hq : (Execution.execute u.settings i).Ends Q) :
    Q (u.lineRun (.ofOracle b o) b f i).1 ∧ Standing s fs (u.lineRun (.ofOracle b o) b f i).2 ∧
      ∃ es, Passage u (u.lineRun (.ofOracle b o) b f i).2 [i] es := by
  obtain ⟨h1, h2⟩ := run_steady (b := b) ho hq (u.record (.handed f.id i))
  obtain ⟨es, hp⟩ := h2.passage
  exact ⟨h1, (h.handed f.id i).aside h2, _, (passage_handed u f.id i).trans hp⟩

/-- The frames, but for the innermost macro if it has no line left. -/
def rest (base : List (Frame τ)) (f : Frame τ) (w : NativeWork) : List (Frame τ) :=
  if w.instructions.length ≤ w.cursor then base else base ++ [f.doing w]

theorem popIfDone_rest (h : Standing s (base ++ [f.doing w]) t) :
    Standing s (rest base f w) (t.popIfDone f.id) ∧ ∃ es, Passage t (t.popIfDone f.id) [] es := by
  unfold popIfDone rest
  rw [h.top]
  simp only [Frame.doing, ne_eq, not_true_eq_false, ↓reduceIte]
  split
  · exact h.pop
  · exact ⟨h, [], .refl t⟩

theorem popIfDone_above {g : Frame τ} (h : Standing s (base ++ [f] ++ [g]) t) :
    t.popIfDone f.id = t := by
  unfold popIfDone
  rw [h.top]
  have hlt : f.id < g.id := h.below f (by simp)
  simp [Nat.ne_of_gt hlt]

/-- A line that leaves the frames alone. -/
theorem tick_line (hu : s.settings.Usable) (ho : o.Steady)
    (h : Standing s (base ++ [f.doing w]) t) (hs : t.Smooth (.ofOracle b o) b)
    (hi : w.instructions[w.cursor]? = some i) (hc : i.command ≠ "loop")
    (hl : ∀ u, Standing s (base ++ [f.doing w.next]) u →
      Answered (u.lineRun (.ofOracle b o) b f i).1 ∧
      Standing s (base ++ [f.doing w.next]) (u.lineRun (.ofOracle b o) b f i).2 ∧
      ∃ es, Passage u (u.lineRun (.ofOracle b o) b f i).2 [i] es) :
    Standing s (rest base f w.next) (t.tick (.ofOracle b o) b).2 ∧
      ∃ es, Passage t (t.tick (.ofOracle b o) b).2 [i] es := by
  obtain ⟨u, es, fs, rfl, h1, hp, ht⟩ := tick_passes (P := (· = base ++ [f.doing w.next])) hu ho h hs
    hi hc (by rintro fs rfl; simp) fun u hu => ⟨(hl u hu).1, ⟨_, rfl, (hl u hu).2.1⟩, (hl u hu).2.2⟩
  obtain ⟨h2, es', hp'⟩ := popIfDone_rest h1
  rw [ht]
  exact ⟨h2, _, hp.trans hp'⟩

/-- A line that neither loops nor starts a macro. -/
theorem tick_plain (hu : s.settings.Usable) (ho : o.Steady)
    (h : Standing s (base ++ [f.doing w]) t) (hs : t.Smooth (.ofOracle b o) b)
    (hi : w.instructions[w.cursor]? = some i) (hc : i.command ≠ "loop") (hm : i.command ≠ "runmacro") :
    Standing s (rest base f w.next) (t.tick (.ofOracle b o) b).2 ∧
      ∃ es, Passage t (t.tick (.ofOracle b o) b).2 [i] es :=
  tick_line hu ho h hs hi hc fun _ hu => lineRun_ends ho hu f (Execution.execute_tame _ hm)

/-! Loops. -/

theorem loopFlags_unmarked (h : Standing s fs t) (hf : f ∈ fs) : t.loopFlags f.id = t := by
  obtain ⟨h1, h2⟩ := h.unmarked f hf
  unfold loopFlags
  rw [h.frame? hf]
  simp [h1, h2]

theorem reportLoop_ok (hu : t.settings.Usable) (name : Value) (done : Nat) (n : Option Int) :
    (t.reportLoop name done n).1 = .ok () := by
  obtain ⟨x, hx⟩ := hu.loopEcho
  have hx : (t.record (.loop name done n)).settings.loopEcho = .ok x := hx
  unfold reportLoop
  dsimp only
  rw [hx]
  cases x <;> rfl

/-- A loop line is passed, and the marks are looked at, whether it goes back or not. -/
theorem loopBoundary_usable (hu : t.settings.Usable) (hf : t.frame? f.id = some f) (hw : f.work = .native w)
    (hs : f.stopAtLoop = false) (k : Nat) (n : Option Int) :
    ∃ u, Remarked (t.modifyNative f.id fun w => passLoop w k n) u ∧
      t.loopBoundary f.id k n = (.ok (), u.loopFlags f.id) := by
  unfold loopBoundary
  rw [hf]
  dsimp only
  rw [if_neg (by simp [hs]), hw]
  dsimp only
  have hr := reportLoop_remarked (t.modifyNative f.id fun w => passLoop w k n)
    ((t.modifyNative f.id fun w => passLoop w k n).nameOf f) (w.loopsDone + 1) n
  have hx := reportLoop_ok (t := t.modifyNative f.id fun w => passLoop w k n) hu
    ((t.modifyNative f.id fun w => passLoop w k n).nameOf f) (w.loopsDone + 1) n
  split
  · split
    · next hb => rw [hb] at hx; simp at hx
    · next u hb =>
      rw [hb] at hr
      exact ⟨u, hr, rfl⟩
  · exact ⟨_, .refl _, rfl⟩

theorem loopBoundary_steady (hu : s.settings.Usable) (h : Standing s (base ++ [f.doing w]) t)
    (k : Nat) (n : Option Int) :
    ∃ u, Standing s (base ++ [f.doing (passLoop w k n)]) u ∧ (∃ es, Passage t u [] es) ∧
      t.loopBoundary f.id k n = (.ok (), u) := by
  have hf : f.doing w ∈ base ++ [f.doing w] := by simp
  have hf' : f.doing (passLoop w k n) ∈ base ++ [f.doing (passLoop w k n)] := by simp
  obtain ⟨u, hr, he⟩ := loopBoundary_usable (f := f.doing w) (h.settings ▸ hu) (h.frame? hf) rfl
    (h.unmarked _ hf).1 k n
  have h1 := (h.modifyNative fun w => passLoop w k n).aside hr.aside
  obtain ⟨es, hp⟩ := hr.aside.passage
  refine ⟨u, h1, ⟨_, (modifyNative_passage t f.id fun w => passLoop w k n).trans hp⟩, ?_⟩
  rw [show t.loopBoundary f.id k n = _ from he]
  exact congrArg _ (loopFlags_unmarked (f := f.doing (passLoop w k n)) h1 hf')

/-- A loop line that goes through. -/
theorem tick_loop (hu : s.settings.Usable) (ho : o.Steady)
    (h : Standing s (base ++ [f.doing w]) t)
    (he : (t.tick (.ofOracle b o) b).1 ≠ .error .endless)
    (hi : w.instructions[w.cursor]? = some i) (hc : i.command = "loop")
    (hd : i.has "condition" = false) (hw : i.PlainWait) :
    Standing s (rest base f (passLoop w.next w.cursor (loopCount i)))
      (t.tick (.ofOracle b o) b).2 ∧ ∃ es, Passage t (t.tick (.ofOracle b o) b).2 [i] es := by
  obtain ⟨x, u, es, r, fs, rfl, h1, hp, -, hr, hn, hx, ht⟩ := tick_performs
    (Q := fun r => r = .ok .completed ∨ r = .error .endless) (P := (· = base ++ [f.doing w.next]))
    ho h hi he fun u hu => by
      obtain ⟨h1, h2, h3⟩ := lineRun_ends ho hu f (Execution.execute_loop u.settings hc hd hw)
      refine ⟨?_, h1, ⟨_, rfl, h2⟩, h3⟩
      rcases h1 with h1 | h1 <;> rw [h1]
      · exact answered_ok _
      · exact answered_error.2 (by simp)
  obtain rfl := hx _ (hr.resolve_right hn)
  obtain ⟨v, h2, ⟨es', hp'⟩, hl⟩ := loopBoundary_steady hu h1 w.cursor (loopCount i)
  obtain ⟨h3, es'', hp''⟩ := popIfDone_rest h2
  have hf : f.doing w.next ∈ base ++ [f.doing w.next] := by simp
  have ha : u.afterNative f.id w.cursor i (some .completed) = (.ok true, v.popIfDone f.id) := by
    have hs : u.settle f.id i .completed = (.ok true, u) := by
      unfold settle
      rw [show u.frame? f.id = some (f.doing w.next) from h1.frame? hf]
      rfl
    have hcl : completesLoop i .completed = true := by simp [completesLoop, hc, Outcome.completed]
    unfold afterNative
    simp only [hs, hcl, hl, ↓reduceIte]
  rw [ht, ha]
  exact ⟨h3, _, (hp.trans hp').trans hp''⟩

/-! Macros that are started by a line. -/

/-- The macro is started, and then the rest of the line leaves the frames alone. -/
theorem lineRun_opens (ho : o.Steady) (u : Session σ τ) (f : Frame τ) (hc : i.command = "runmacro")
    (hd : i.has "condition" = false)
    (hx : Answered ((u.record (.handed f.id i)).runNested b i.args).1) :
    Answered (u.lineRun (.ofOracle b o) b f i).1 ∧
      Aside ((u.record (.handed f.id i)).runNested b i.args).2
        (u.lineRun (.ofOracle b o) b f i).2 := by
  obtain ⟨next, hn, hq⟩ := Execution.execute_opens u.settings hc hd
  have h := run_steady (b := b) ho (hq _ hx) ((u.record (.handed f.id i)).runNested b i.args).2
  unfold lineRun
  rw [hn]
  exact h

/-- All macros are native. -/
def AllNative (t : Tree) : Prop := ∀ n ∈ t.leaves, ∀ body ∈ t.body? n, body.language = .native

instance (t : Tree) : Decidable (AllNative t) :=
  inferInstanceAs (Decidable (∀ n ∈ t.leaves, ∀ body ∈ t.body? n, body.language = .native))

theorem built_congr (h : Standing s fs t) (n : NodeId) : t.built n = s.built n := by
  unfold built instructions? runText wrappedText
  rw [h.tree, h.settings, h.registry]

/-- A line that starts a macro. -/
theorem tick_starts (hu : s.settings.Usable) (hl : AllNative s.tree) (ho : o.Steady)
    (h : Standing s (base ++ [f.doing w]) t) (hs : t.Smooth (.ofOracle b o) b)
    (hi : w.instructions[w.cursor]? = some i) (hc : i.command = "runmacro")
    (hd : i.has "condition" = false) {n : NodeId} (hn : s.tree.findLeaves i.args = [n])
    (hb : s.built n = some js) (hr : base.length + 1 < Limits.maxFrameDepth) :
    ∃ g : Frame τ, Standing s (base ++ [f.doing w.next] ++ [g.doing (.start js)])
        (t.tick (.ofOracle b o) b).2 ∧
      ∃ es, Passage t (t.tick (.ofOracle b o) b).2 [i] es := by
  have hm : n ∈ s.tree.findLeaves i.args := by simp [hn]
  obtain ⟨u, es, fs, ⟨g, rfl⟩, h1, hp, ht⟩ := tick_passes
    (P := fun fs => ∃ g : Frame τ, fs = base ++ [f.doing w.next] ++ [g.doing (.start js)]) hu ho h hs
    hi (by simp [hc]) (by rintro fs ⟨g, rfl⟩; simp) fun u hu => by
      have hv := hu.handed f.id i
      obtain ⟨text, hx⟩ := runNested_pushes b hv.hasRunner hv.opened
        (by rw [hv.tree]; exact hn) (by rw [hv.tree]; exact hl n (List.mem_filter.1 hm).1)
        (by rw [built_congr hv]; exact hb) (by rw [hv.stack]; simpa using hr)
      obtain ⟨h1, h2⟩ := lineRun_opens (b := b) ho u f hc hd (by rw [hx]; exact answered_ok _)
      rw [hx] at h2
      obtain ⟨es, hp⟩ := push_passage (u.record (.handed f.id i)) n text (.native (.start js))
      obtain ⟨es', hp'⟩ := h2.passage
      refine ⟨h1, ⟨_, ⟨_, rfl⟩, (hv.push (by simp) n text js).aside h2⟩, ?_⟩
      exact ⟨_, ((passage_handed u f.id i).trans hp).trans hp'⟩
  rw [ht, show u.popIfDone f.id = u from popIfDone_above (f := f.doing w.next) h1]
  exact ⟨g, h1, es, hp⟩

/-- A line that cannot start a macro. -/
theorem tick_refuses (hu : s.settings.Usable) (hl : AllNative s.tree) (ho : o.Steady)
    (h : Standing s (base ++ [f.doing w]) t) (hs : t.Smooth (.ofOracle b o) b)
    (hi : w.instructions[w.cursor]? = some i) (hc : i.command = "runmacro")
    (hd : i.has "condition" = false)
    (hn : ∀ n, s.tree.findLeaves i.args = [n] →
      s.built n = none ∨ Limits.maxFrameDepth ≤ base.length + 1) :
    Standing s (rest base f w.next) (t.tick (.ofOracle b o) b).2 ∧
      ∃ es, Passage t (t.tick (.ofOracle b o) b).2 [i] es := by
  refine tick_line hu ho h hs hi (by simp [hc]) fun u hu => ?_
  have hv := hu.handed f.id i
  have hroom : ∀ n, (u.record (.handed f.id i)).tree.findLeaves i.args = [n] →
      (u.record (.handed f.id i)).built n = none ∨
        Limits.maxFrameDepth ≤ (u.record (.handed f.id i)).stack.length := by
    intro n hf
    rw [hv.tree] at hf
    rw [built_congr hv, hv.stack]
    simpa using hn n hf
  obtain ⟨h1, h2⟩ := runNested_refuses b (by rw [hv.tree]; exact hl) fun n hf _ _ => hroom n hf
  obtain ⟨h3, h4⟩ := lineRun_opens (b := b) ho u f hc hd h1
  have h5 := h2.aside.trans h4
  obtain ⟨es, hp⟩ := h5.passage
  exact ⟨h3, hv.aside h5, _, (passage_handed u f.id i).trans hp⟩

end Session

end Macros
