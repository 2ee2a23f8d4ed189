import Macros.Proofs.Scheduler.Sound

/-!
What comes from outside: control calls, and macros that are started. None of it touches the work of
a frame that is there already, and only a stop takes frames away; so the driver, when its line has
ended, finds its frame as it left it or learns from the journal that a stop came in.
-/

namespace Macros

open Relation Session

variable {σ τ : Type}

namespace Session

/-- Observers have been told something, and that is all. -/
def Remarked (s s' : Session σ τ) : Prop :=
  ∃ es : List Event, (∀ e ∈ es, e.isRemark) ∧ s' = { s with journal := es ++ s.journal }

theorem Remarked.refl (s : Session σ τ) : Remarked s s := ⟨[], by simp, rfl⟩

theorem Remarked.trans {s s' s'' : Session σ τ} (h : Remarked s s') (h' : Remarked s' s'') :
    Remarked s s'' := by
  obtain ⟨es, he, rfl⟩ := h
  obtain ⟨es', he', rfl⟩ := h'
  exact ⟨es' ++ es, List.forall_mem_append.2 ⟨he', he⟩, by simp⟩

theorem remarked_record (s : Session σ τ) {e : Event} (he : e.isRemark) :
    Remarked s (s.record e) := ⟨[e], by simpa using he, rfl⟩

theorem remarked_say (s : Session σ τ) (l : Level) (m : Value) : Remarked s (s.say l m) :=
  remarked_record s rfl

theorem remarked_log (s : Session σ τ) (l : Level) (m : String) : Remarked s (s.log l m) :=
  remarked_record s rfl

theorem remarked_emitStatus (s : Session σ τ) : Remarked s s.emitStatus := remarked_record s rfl

theorem Remarked.changes {o : Oracle σ τ} {s s' : Session σ τ} (h : Remarked s s') :
    Changes o s s' := by
  obtain ⟨es, he, rfl⟩ := h
  induction es with
  | nil => exact .refl
  | cons e es ih =>
    have h1 := ih fun e' h' => he e' (by simp [h'])
    exact h1.tail (.remark _ e (he e (by simp)))

/-! Starting a macro tells something, and then pushes a frame or not. -/

inductive Starts (s : Session σ τ) : Bool → Session σ τ → Prop
  | nothing {s' : Session σ τ} (h : Remarked s s') : Starts s false s'
  | pushed {s' : Session σ τ} (h : Remarked s s') (node : NodeId) (text : String) (work : Work τ)
    (hw : work.Fresh) (hd : s.stack.length < Limits.maxFrameDepth) :
    Starts s true (s'.push node text work)

theorem buildNative_remarked (s : Session σ τ) (name : Value) (body : Body) (n : Option Int) :
    Remarked s (s.buildNative name body n).2 := by
  unfold buildNative
  split
  · exact .refl s
  · exact remarked_log s _ _
  · split
    · exact remarked_log s _ _
    · exact .refl s

theorem buildNative_fresh {s : Session σ τ} {name : Value} {body : Body} {n : Option Int}
    {text : String} {work : Work τ} (h : (s.buildNative name body n).1 = .ok (some (text, work))) :
    work.Fresh := by
  unfold buildNative at h
  split at h
  · simp at h
  · simp at h
  · split at h
    · simp at h
    · simp only [Except.ok.injEq, Option.some.injEq, Prod.mk.injEq] at h
      rw [← h.2]
      exact .native _

theorem ignoreCount_remarked (s : Session σ τ) (name : Value) (n : Option Int) :
    Remarked s (s.ignoreCount name n) := by
  cases n
  · exact .refl s
  · exact remarked_log s _ _

theorem buildScript_remarked (b : Bridge τ) (s : Session σ τ) (name : Value) (body : Body)
    (n : Option Int) : Remarked s (s.buildScript b name body n).2 := by
  have h1 := ignoreCount_remarked s name n
  unfold buildScript
  dsimp only
  split
  · exact (h1.trans (remarked_record _ rfl)).trans (remarked_log _ _ _)
  · exact h1.trans (remarked_record _ rfl)

theorem buildScript_fresh {b : Bridge τ} {s : Session σ τ} {name : Value} {body : Body}
    {n : Option Int} {text : String} {work : Work τ}
    (h : (s.buildScript b name body n).1 = some (text, work)) : work.Fresh := by
  unfold buildScript at h
  dsimp only at h
  split at h
  · simp at h
  · simp only [Option.some.injEq, Prod.mk.injEq] at h
    rw [← h.2]
    exact .script _

theorem Remarked.stack {s s' : Session σ τ} (h : Remarked s s') : s'.stack = s.stack := by
  obtain ⟨es, -, rfl⟩ := h
  rfl

theorem build_remarked (b : Bridge τ) (s : Session σ τ) (name : Value) (body : Body)
    (n : Option Int) : Remarked s (s.build b name body n).2 := by
  unfold build
  split
  · exact buildScript_remarked b s name body n
  · exact buildNative_remarked s name body n

theorem build_fresh {b : Bridge τ} {s : Session σ τ} {name : Value} {body : Body}
    {n : Option Int} {text : String} {work : Work τ}
    (h : (s.build b name body n).1 = .ok (some (text, work))) : work.Fresh := by
  unfold build at h
  split at h
  · exact buildScript_fresh (Except.ok.inj h)
  · exact buildNative_fresh h

/-- What a macro is built from are the settings and the registry. -/
theorem build_result {s t : Session σ τ} (b : Bridge τ) (hs : s.settings = t.settings)
    (hr : s.registry = t.registry) (name : Value) (body : Body) (n : Option Int) :
    (s.build b name body n).1 = (t.build b name body n).1 := by
  unfold build
  split
  · have h1 : ∀ s : Session σ τ, (s.ignoreCount name n).settings = s.settings := fun s => by
      cases n <;> rfl
    unfold buildScript
    dsimp only
    rw [h1, h1, hs]
    split <;> rfl
  · have h1 : s.runText body n = t.runText body n := by
      unfold runText wrappedText
      rw [hs, hr]
    unfold buildNative
    rw [h1, hr]
    split
    · rfl
    · rfl
    · split <;> rfl

theorem run_starts (b : Bridge τ) (s : Session σ τ) (node : NodeId) (n : Option Int) :
    Starts s (started (s.run b node n).1) (s.run b node n).2 := by
  unfold run
  split
  · exact .nothing (remarked_log s _ _)
  · dsimp only
    split
    · exact .nothing (remarked_log s _ _)
    · next body _ =>
      have h1 := build_remarked b s (s.tree.name node) body n
      split
      · next hb => rw [hb] at h1; exact .nothing h1
      · next hb => rw [hb] at h1; exact .nothing h1
      · next text work s' hb =>
        have h2 : work.Fresh := build_fresh (by rw [hb])
        rw [hb] at h1
        split
        · exact .nothing (h1.trans (remarked_log _ _ _))
        · next hd =>
          exact .pushed h1 node text work h2 (by rw [← h1.stack]; exact Nat.lt_of_not_le hd)

theorem runByName_starts (b : Bridge τ) (s : Session σ τ) (name : Value) (n : Option Int) :
    Starts s (started (s.runByName b name n).1) (s.runByName b name n).2 := by
  unfold runByName
  split
  · exact .nothing (.refl s)
  · exact run_starts b s _ n
  · exact .nothing (.refl s)

theorem runNested_starts (b : Bridge τ) (s : Session σ τ) (name : Value) :
    ∃ p, Starts s p (s.runNested b name).2 := by
  unfold runNested
  split
  · exact ⟨false, .nothing (.refl s)⟩
  · have h := runByName_starts b s name none
    split <;> next hr => rw [hr] at h; exact ⟨_, h⟩

/-! What may happen while the driver waits. -/

/-- The journal has grown, and no line has changed hands. -/
def Reports (s s' : Session σ τ) : Prop :=
  ∃ es : List Event, (∀ e ∈ es, ¬e.isExchange) ∧ s'.journal = es ++ s.journal

/-- A stop has come in, and has returned. -/
def StopCame (s s' : Session σ τ) : Prop :=
  ∃ es b, .called (.stop false) b ∈ es ∧ s'.journal = es ++ s.journal

theorem Reports.refl (s : Session σ τ) : Reports s s := ⟨[], by simp, rfl⟩

theorem Reports.trans {s s' s'' : Session σ τ} (h : Reports s s') (h' : Reports s' s'') :
    Reports s s'' := by
  obtain ⟨es, he, hj⟩ := h
  obtain ⟨es', he', hj'⟩ := h'
  exact ⟨es' ++ es, List.forall_mem_append.2 ⟨he', he⟩, by rw [hj', hj, List.append_assoc]⟩

theorem reports_record (s : Session σ τ) {e : Event} (he : ¬e.isExchange) :
    Reports s (s.record e) := ⟨[e], by simpa using he, rfl⟩

theorem StopCame.after {s s' s'' : Session σ τ} (h : Reports s s') (h' : StopCame s' s'') :
    StopCame s s'' := by
  obtain ⟨es, -, hj⟩ := h
  obtain ⟨es', b, hb, hj'⟩ := h'
  exact ⟨es' ++ es, b, by simp [hb], by rw [hj', hj, List.append_assoc]⟩

theorem StopCame.before {s s' s'' : Session σ τ} (h : StopCame s s') (h' : Reports s' s'') :
    StopCame s s'' := by
  obtain ⟨es, b, hb, hj⟩ := h
  obtain ⟨es', -, hj'⟩ := h'
  exact ⟨es' ++ es, b, by simp [hb], by rw [hj', hj, List.append_assoc]⟩

/-- Frames keep their work, and only a stop takes one away. -/
structure Meanwhile (o : Oracle σ τ) (s s' : Session σ τ) : Prop where
  changes : Changes o s s'
  nextId_le : s.nextId ≤ s'.nextId
  work : ∀ g ∈ s'.stack, g.id < s.nextId → ∃ f ∈ s.stack, f.id = g.id ∧ f.work = g.work
  reports : Reports s s'
  spares : ∀ id, s.owns id → s'.owns id ∨ StopCame s s'

variable {o : Oracle σ τ} {s s' s'' : Session σ τ}

theorem Meanwhile.refl (s : Session σ τ) : Meanwhile o s s :=
  ⟨.refl, Nat.le_refl _, fun g hg _ => ⟨g, hg, rfl, rfl⟩, .refl s, fun _ h => .inl h⟩

theorem Meanwhile.trans (h : Meanwhile o s s') (h' : Meanwhile o s' s'') : Meanwhile o s s'' where
  changes := h.changes.trans h'.changes
  nextId_le := Nat.le_trans h.nextId_le h'.nextId_le
  work := by
    intro g hg hlt
    obtain ⟨f, hf, hi, hw⟩ := h'.work g hg (Nat.lt_of_lt_of_le hlt h.nextId_le)
    obtain ⟨e, he, hi', hw'⟩ := h.work f hf (by rw [hi]; exact hlt)
    exact ⟨e, he, hi'.trans hi, hw'.trans hw⟩
  reports := h.reports.trans h'.reports
  spares := by
    intro id hid
    rcases h.spares id hid with hid | hid
    · exact (h'.spares id hid).imp_right fun hc => hc.after h.reports
    · exact .inr (hid.before h'.reports)

/-- Nothing happens to the stack. -/
theorem Meanwhile.of_stack (hc : Changes o s s') (hr : Reports s s') (hs : s'.stack = s.stack)
    (hn : s'.nextId = s.nextId) : Meanwhile o s s' where
  changes := hc
  nextId_le := Nat.le_of_eq hn.symm
  work := fun g hg _ => ⟨g, hs ▸ hg, rfl, rfl⟩
  reports := hr
  spares := fun id hid => .inl (by simpa [owns, hs] using hid)

theorem Remarked.reports (h : Remarked s s') : Reports s s' := by
  obtain ⟨es, he, rfl⟩ := h
  exact ⟨es, fun e hm => (Event.quiet_of_isRemark (he e hm)).2, rfl⟩

theorem Remarked.meanwhile (h : Remarked s s') : Meanwhile o s s' := by
  refine .of_stack h.changes h.reports h.stack ?_
  obtain ⟨es, -, rfl⟩ := h
  rfl

theorem setState_reports (s : Session σ τ) (x : RunState) : Reports s (s.setState x) := by
  rw [setState_eq]
  exact ⟨_, fun e he => (stateNews_quiet s x e he).2, rfl⟩

theorem push_reports (s : Session σ τ) (node : NodeId) (text : String) (work : Work τ) :
    Reports s (s.push node text work) := by
  rw [push_eq]
  exact ⟨_, fun e he => (pushNews_quiet s _ e he).2, rfl⟩

theorem pop_reports (s : Session σ τ) (f : Frame τ) (r : FrameResult) :
    Reports s (s.pop f r) := by
  rw [pop_eq]
  exact ⟨_, fun e he => (popNews_quiet s f r e he).2, rfl⟩

theorem owns_iff (s : Session σ τ) (id : Nat) : s.owns id ↔ ∃ f ∈ s.stack, f.id = id := by
  simp [owns]

theorem push_meanwhile (s : Session σ τ) (node : NodeId) (text : String) {work : Work τ}
    (hw : work.Fresh) (hd : s.stack.length < Limits.maxFrameDepth)
    (hj : Journal.stopped s.journal = false ∨ s.HandsOver) :
    Meanwhile o s (s.push node text work) where
  changes := .single (.push s node text work hw hd hj)
  nextId_le := by rw [push_eq]; exact Nat.le_succ _
  work := by
    rw [push_eq]
    intro g hg hlt
    rcases List.mem_append.1 hg with hg | hg
    · exact ⟨g, hg, rfl, rfl⟩
    · rw [List.mem_singleton.1 hg] at hlt
      exact absurd hlt (Nat.lt_irrefl _)
  reports := push_reports s node text work
  spares := by
    intro id hid
    obtain ⟨f, hf, hi⟩ := (owns_iff s id).1 hid
    refine .inl ((owns_iff _ id).2 ⟨f, ?_, hi⟩)
    rw [push_eq]
    exact List.mem_append_left _ hf

theorem Starts.meanwhile {p : Bool} (h : Starts s p s')
    (hj : Journal.stopped s.journal = false ∨ s.HandsOver) : Meanwhile o s s' := by
  cases h with
  | nothing h => exact h.meanwhile
  | pushed h node text work hw hd =>
    refine h.meanwhile.trans (push_meanwhile _ node text hw (by rw [h.stack]; exact hd) ?_)
    obtain ⟨es, he, rfl⟩ := h
    rcases hj with hj | ⟨id, i, hj⟩
    · exact .inl ((Journal.stopped_append_of_quiet (fun e h => (Event.quiet_of_isRemark (he e h)).1) _).trans hj)
    · exact .inr ⟨id, i, List.mem_append_right _ hj⟩

theorem modify_meanwhile {id : Nat} {g : Frame τ → Frame τ} (hc : Change o s (s.modify id g))
    (hg : ∀ f, (g f).id = f.id ∧ (g f).work = f.work) : Meanwhile o s (s.modify id g) where
  changes := .single hc
  nextId_le := Nat.le_refl _
  work := by
    intro f hf _
    obtain ⟨f', hf', rfl⟩ := List.mem_map.1 hf
    refine ⟨f', hf', ?_⟩
    split
    · exact ⟨(hg f').1.symm, (hg f').2.symm⟩
    · exact ⟨rfl, rfl⟩
  reports := .refl s
  spares := by
    intro j hj
    obtain ⟨f, hf, hi⟩ := (owns_iff s j).1 hj
    refine .inl ((owns_iff _ j).2 ⟨_, List.mem_map_of_mem hf, ?_⟩)
    split
    · rw [(hg f).1, hi]
    · exact hi

theorem markTop_meanwhile (s : Session σ τ) (pauses stops : Frame τ → Bool) :
    Meanwhile o s
      (s.markTop fun f => { f with pauseAtLoop := pauses f, stopAtLoop := stops f }) := by
  unfold markTop
  split
  · next g _ => exact modify_meanwhile (.mark s g.id pauses stops) fun f => ⟨rfl, rfl⟩
  · exact .refl s

theorem pause_meanwhile (s : Session σ τ) (atLoop : Bool) : Meanwhile o s (s.pause atLoop) := by
  unfold pause
  split
  · unfold pauseAtLoop
    split
    · exact .refl s
    · exact (markTop_meanwhile s (fun _ => true) (·.stopAtLoop)).trans
        (remarked_log _ _ _).meanwhile
  · unfold pauseNow
    split
    · next hr =>
      refine Meanwhile.trans ?_ (remarked_log _ _ _).meanwhile
      exact .of_stack (.single (.pause s hr)) (setState_reports s _)
        (by rw [setState_eq]) (by rw [setState_eq])
    · split
      · next hr =>
        simp only [Bool.and_eq_true, decide_eq_true_eq] at hr
        exact .of_stack (.single (.foresee s .paused hr.1 (.inr rfl))) (.refl s) rfl rfl
      · exact .refl s

theorem resume_meanwhile (s : Session σ τ) : Meanwhile o s s.resume := by
  unfold resume
  split
  · next hr =>
    simp only [Bool.and_eq_true, decide_eq_true_eq] at hr
    refine Meanwhile.trans ?_ (remarked_log _ _ _).meanwhile
    exact .of_stack (.single (.resume s hr.1)) (setState_reports s _)
      (by rw [setState_eq]) (by rw [setState_eq])
  · split
    · next hr =>
      simp only [Bool.and_eq_true, decide_eq_true_eq] at hr
      exact .of_stack (.single (.foresee s .running hr.1 (.inl rfl))) (.refl s) rfl rfl
    · exact .refl s

/-! A stop takes every frame off, the innermost first. -/

theorem without_last {fs : List (Frame τ)} {f : Frame τ} (hs : s.stack = fs ++ [f])
    (hn : ∀ g ∈ fs, g.id < f.id) : s.without f.id = fs := by
  rw [without, hs, List.filter_append, List.filter_eq_self.2]
  · simp
  · intro g hg
    simpa using Nat.ne_of_lt (hn g hg)

theorem popAll {fs : List (Frame τ)} (r : FrameResult) (hs : s.stack = fs.reverse)
    (hn : s.stack.Pairwise (·.id < ·.id)) :
    Changes o s (fs.foldl (fun s f => s.pop f r) s) ∧
      Reports s (fs.foldl (fun s f => s.pop f r) s) ∧
      (fs.foldl (fun s f => s.pop f r) s).stack = [] := by
  induction fs generalizing s with
  | nil => exact ⟨.refl, .refl s, hs⟩
  | cons f fs ih =>
    rw [List.reverse_cons] at hs
    rw [hs, List.pairwise_append] at hn
    have hw : (s.pop f r).stack = fs.reverse := by
      rw [pop_eq]
      exact without_last hs fun g hg => hn.2.2 g hg f (by simp)
    obtain ⟨h1, h2, h3⟩ := ih hw (by rw [hw]; exact hn.1)
    refine ⟨ReflTransGen.head (.pop s f r (by simp [hs])) h1, (pop_reports s f r).trans h2, h3⟩

theorem clear_spec (h : s.Sound) (r : FrameResult) :
    Changes o s (s.clear r) ∧ Reports s (s.clear r) ∧ (s.clear r).stack = [] :=
  popAll r (List.reverse_reverse _).symm h.numbered

/-- It makes no difference whether the stop is set before or after the frames are taken off. -/
theorem halt_eq (s : Session σ τ) : s.halt = { s.clear .stopped with stopEvent := true } := by
  unfold halt clear
  dsimp only
  generalize s.stack.reverse = fs
  induction fs generalizing s with
  | nil => rfl
  | cons f fs ih =>
    have h1 : { s with stopEvent := true }.pop f .stopped =
        { s.pop f .stopped with stopEvent := true } := by
      rw [pop_eq, pop_eq]
      rfl
    rw [List.foldl_cons, List.foldl_cons, h1]
    exact ih _

theorem halt_spec (h : s.Sound) :
    Changes o s s.halt ∧ Reports s s.halt ∧ s.halt.stack = [] := by
  obtain ⟨h1, h2, h3⟩ := clear_spec (o := o) h .stopped
  rw [halt_eq]
  exact ⟨h1.tail (.halt _ h3), h2, h3⟩

theorem stop_spec (h : s.Sound) :
    Changes o s (s.stop false) ∧ Reports s (s.stop false) ∧ (s.stop false).stack = [] := by
  unfold stop
  split
  · next he => exact ⟨.refl, .refl s, List.isEmpty_iff.1 he⟩
  · obtain ⟨h1, h2, h3⟩ := halt_spec (o := o) h
    have h4 := remarked_log s.halt .info "Stopped"
    exact ⟨h1.trans h4.changes, h2.trans h4.reports, h4.stack.trans h3⟩

theorem calling_meanwhile (s : Session σ τ) (c : Control) :
    Meanwhile o s (s.record (.calling c)) :=
  .of_stack (.single (.calling s c)) (reports_record s (by simp [Event.isExchange])) rfl rfl

theorem called_meanwhile (s : Session σ τ) (c : Control) (p : Bool)
    (h : c = .stop false → s.stack = []) : Meanwhile o s (s.record (.called c p)) :=
  .of_stack (.single (.called s c p h)) (reports_record s (by simp [Event.isExchange])) rfl rfl

/-- A control call that does not take every frame off at once. -/
theorem perform_meanwhile (b : Bridge τ) {c : Control} (hc : c ≠ .stop false) :
    Meanwhile o (s.record (.calling c)) (c.perform b (s.record (.calling c))).2 := by
  cases c with
  | run node count => exact (run_starts b _ node count).meanwhile (.inl rfl)
  | runByName name count => exact (runByName_starts b _ (.text name) count).meanwhile (.inl rfl)
  | pause atNextLoop => exact pause_meanwhile _ atNextLoop
  | resume => exact resume_meanwhile _
  | stop atNextLoop =>
    cases atNextLoop with
    | false => exact absurd rfl hc
    | true =>
      dsimp only [Control.perform, stop]
      split
      · exact .refl _
      · exact (markTop_meanwhile _ (·.pauseAtLoop) (fun _ => true)).trans
          (remarked_log _ _ _).meanwhile

theorem apply_meanwhile (b : Bridge τ) (c : Control) (h : s.Sound) :
    Meanwhile o s (c.apply b s) := by
  have h1 := calling_meanwhile (o := o) s c
  by_cases hc : c = .stop false
  · subst hc
    obtain ⟨h2, h3, h4⟩ := stop_spec (o := o) (h1.changes.sound h)
    have h5 := called_meanwhile (o := o) ((s.record (.calling (.stop false))).stop false)
      (.stop false) false fun _ => h4
    refine ⟨(h1.changes.trans h2).trans h5.changes, ?_, ?_, (h1.reports.trans h3).trans h5.reports, ?_⟩
    · exact Nat.le_trans h1.nextId_le (Changes.nextId_le (h2.trans h5.changes))
    · intro g hg
      rw [show (Control.apply b (.stop false) s).stack = [] from h4] at hg
      simp at hg
    · intro id _
      obtain ⟨es, he, hj⟩ := h1.reports.trans h3
      exact .inr ⟨.called (.stop false) false :: es, false, by simp, by
        show _ :: _ = _
        rw [hj]; rfl⟩
  · exact h1.trans ((perform_meanwhile b hc).trans (called_meanwhile _ c _ fun h => absurd h hc))

/-- What a control call reports stands between the call itself and its return. -/
theorem apply_journal {b : Bridge τ} {c : Control} {es : List Event}
    (hj : (c.perform b (s.record (.calling c))).2.journal =
      es ++ (s.record (.calling c)).journal) :
    (c.apply b s).journal =
      (Event.called c (c.perform b (s.record (.calling c))).1 :: es ++ [Event.calling c]) ++
        s.journal := by
  simpa [Control.apply, record] using hj

/-! Whatever is respected by all that can come in is respected while the driver waits. -/

structure Admits (b : Bridge τ) (o : Oracle σ τ) (R : Session σ τ → Session σ τ → Prop) :
    Prop where
  refl : ∀ s, R s s
  trans : ∀ {s s' s''}, R s s' → R s' s'' → R s s''
  client : ∀ s k, R s { s with client := (o k s).2.2 }
  control : ∀ {s} (c : Control), s.Sound → R s (c.apply b s)
  start : ∀ {s} (name : Value), s.Sound → s.HandsOver → R s (s.runNested b name).2
  say : ∀ s level message, R s (s.say level message)

/-- All remarks are respected as well, and not only what a line says. -/
structure Respects (b : Bridge τ) (o : Oracle σ τ) (R : Session σ τ → Session σ τ → Prop) : Prop
    extends Admits b o R where
  remark : ∀ {s s'}, Remarked s s' → R s s'
  say s level message := remark (remarked_say s level message)

theorem Reports.handsOver (h : Reports s s') (hs : s.HandsOver) : s'.HandsOver := by
  obtain ⟨es, -, hj⟩ := h
  obtain ⟨id, i, hm⟩ := hs
  exact ⟨id, i, by rw [hj]; exact List.mem_append_right _ hm⟩

theorem meanwhile (b : Bridge τ) (o : Oracle σ τ) : Respects b o (Meanwhile o) where
  refl := .refl
  trans := .trans
  client s k := .of_stack (.single (.client s k)) (.refl s) rfl rfl
  control c h := apply_meanwhile b c h
  start name _ hh := (runNested_starts b _ name).elim fun _ hp => hp.meanwhile (.inr hh)
  remark h := h.meanwhile

variable {b : Bridge τ} {R : Session σ τ → Session σ τ → Prop}

theorem Admits.land (hR : Admits b o R) (cs : List Control) (h : s.Sound) :
    R s (s.land b cs) := by
  induction cs generalizing s with
  | nil => exact hR.refl s
  | cons c cs ih =>
    exact hR.trans (hR.control c h) (ih ((apply_meanwhile (o := o) b c h).changes.sound h))

/-- A call to the client, with all that comes in before it answers. -/
theorem Admits.respond (hR : Admits b o R) (k : Call) (h : s.Sound) :
    R s (o.respond b k s).2 :=
  hR.trans (hR.client s k) (hR.land _ (h.of_eq rfl rfl rfl rfl))

/-- The answer to a line that has been handed over. -/
theorem Admits.answer (hR : Admits b o R) (h : s.Sound) (hh : s.HandsOver) (e : Effect) :
    R s (answer (.ofOracle b o) b e s).2 := by
  cases e with
  | ask r => exact hR.respond (.ask r) h
  | condition => exact hR.respond .condition h
  | sleep t => exact hR.respond (.sleep t) h
  | stopped => exact hR.refl s
  | draw => exact hR.respond .draw h
  | start name => exact hR.start name h hh
  | log level message => exact hR.say s level message

theorem Admits.routine {α : Type} (hR : Admits b o R) (r : Routine α) (h : s.Sound)
    (hh : s.HandsOver) : R s (r.run (Session.answer (.ofOracle b o) b) s).2 := by
  induction r generalizing s with
  | done a => exact hR.refl s
  | perform e next ih =>
    have h1 := (meanwhile b o).answer h hh e
    exact hR.trans (hR.answer h hh e) (ih _ (h1.changes.sound h) (h1.reports.handsOver hh))

/-- A line from the moment at which it is handed over. -/
theorem Respects.perform (hR : Respects b o R) (h : s.Sound) (f : Frame τ) (i : Instruction) :
    R (s.record (.handed f.id i)) (s.perform (.ofOracle b o) b f i).2 := by
  have h0 : (s.record (.handed f.id i)).Sound := h.of_eq rfl rfl rfl rfl
  have h1 := hR.routine (Execution.execute (s.record (.handed f.id i)).settings i).run h0
    ⟨f.id, i, by simp [record]⟩
  unfold Session.perform
  dsimp only
  split
  · next hr => rw [hr] at h1; exact hR.trans h1 (hR.remark (remarked_record _ rfl))
  · next hr => rw [hr] at h1; exact hR.trans h1 (hR.remark (remarked_log _ _ _))
  · next hr => rw [hr] at h1; exact h1
  · next hr =>
    rw [hr] at h1
    exact hR.trans h1 (hR.remark ((remarked_log _ _ _).trans (remarked_record _ rfl)))

theorem Admits.hostCalls (hR : Admits b o R) (n : Nat) (h : s.Sound) :
    R s (hostCalls (.ofOracle b o) n s) := by
  induction n generalizing s with
  | zero => exact hR.refl s
  | succ n ih =>
    have h1 := (meanwhile b o).respond .hostCall h
    exact hR.trans (hR.respond .hostCall h) (ih (h1.changes.sound h))

end Session

end Macros
