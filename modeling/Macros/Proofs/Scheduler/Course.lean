import Macros.Proofs.Scheduler.Driver
import Macros.Proofs.Scheduler.Talk

/-!
What happens to a session, cut into its parts. A relation that holds across each part by itself holds across
every operation. A macro that is built and put on is one part, so that one knows what it starts with.
-/

namespace Macros

open Session

variable {σ τ : Type}

/-- Events that are about lines and calls, or are for observers only. -/
def Event.isNote : Event → Bool
  | log _ _ | status _ | loop _ _ _ | handed _ _ | settled _ _ _ | sent _ _ | calling _ | called _ _ => true
  | _ => false

/-- Has a script been loaded, and nothing been reported since? -/
def Journal.loading (es : List Event) : Bool := es.head?.any Event.isLoading

/-- What a macro starts with, and what has been told while it was built. -/
inductive Work.Begins : List Event → Work τ → Prop
  | native (is : List Instruction) : Begins [] (.native (.start is))
  | script (es : List Event) (r : LoadRequest) (name : String) (x : τ) :
    Begins (.loaded r :: es) (.script (.start (.create name x)))

namespace Session

/-- The relation holds across each part of what happens to a session, but for a step of a script. -/
structure Upholds (R : Session σ τ → Session σ τ → Prop) : Prop where
  refl : ∀ s, R s s
  trans : ∀ {s s' s''}, R s s' → R s' s'' → R s s''
  client : ∀ (s : Session σ τ) (x : σ), R s { s with client := x }
  note : ∀ (s) (e : Event), e.isNote → R s (s.record e)
  /-- A macro is not built. -/
  told : ∀ (s : Session σ τ) (es : List Event), (∀ e ∈ es, e.isRemark) → Journal.loading es = false →
    R s { s with journal := es ++ s.journal }
  /-- A macro is built and put on. -/
  launch : ∀ (s : Session σ τ) (es : List Event) (node : NodeId) (text : String) (work : Work τ),
    (∀ e ∈ es, e.isRemark) → work.Begins es →
    R s (Session.push { s with journal := es ++ s.journal } node text work)
  state : ∀ s x, R s (s.setState x)
  flags : ∀ (s : Session σ τ) (prior : RunState) (freshRun stopEvent : Bool),
    R s { s with prior := prior, freshRun := freshRun, stopEvent := stopEvent }
  pop : ∀ {s f} (r : FrameResult), f ∈ s.stack → R s (s.pop f r)
  halt : ∀ s, R s s.halt
  mark : ∀ (s) (id : Nat) (p q : Frame τ → Bool),
    R s (s.modify id fun f => { f with pauseAtLoop := p f, stopAtLoop := q f })
  native : ∀ s id m, R s (s.modifyNative id m)
  script : ∀ s id m, (∀ w, (m w).run = w.run) → R s (s.modifyScript id m)

variable {b : Bridge τ} {o : Oracle σ τ} {R : Session σ τ → Session σ τ → Prop} {s t : Session σ τ}
  {f : Frame τ} {w : ScriptWork τ}

theorem Upholds.log (hR : Upholds R) (s : Session σ τ) (level : Level) (message : String) :
    R s (s.log level message) := hR.note s _ rfl

theorem Upholds.emitStatus (hR : Upholds R) (s : Session σ τ) : R s s.emitStatus :=
  hR.note s _ rfl

/-! Starting macros. -/

/-- A macro is built, or the reason why not is told. -/
theorem build_begins (b : Bridge τ) (s : Session σ τ) (name : Value) (body : Body) (count : Option Int) :
    ∃ es, (∀ e ∈ es, e.isRemark) ∧
      (s.build b name body count).2 = { s with journal := es ++ s.journal } ∧
      ((∃ text work, (s.build b name body count).1 = .ok (some (text, work)) ∧ work.Begins es) ∨
        Journal.loading es = false ∧ ∀ p, (s.build b name body count).1 ≠ .ok (some p)) := by
  unfold build
  split
  · unfold buildScript Bridge.start
    obtain ⟨es, hn, he⟩ := ignoreCount_remarked s name count
    rw [he]
    dsimp only
    have hload : ∀ r : LoadRequest, ∀ e ∈ Event.loaded r :: es, e.isRemark := fun r =>
      List.forall_mem_cons.2 ⟨rfl, hn⟩
    cases b.interpreter.load (b.request name body.contents s.settings.requirePaths) with
    | error m => exact ⟨.log .error _ :: .loaded _ :: es, List.forall_mem_cons.2 ⟨rfl, hload _⟩, rfl,
        .inr ⟨rfl, by simp⟩⟩
    | ok x => exact ⟨.loaded _ :: es, hload _, rfl, .inl ⟨_, _, rfl, .script es _ _ x⟩⟩
  · unfold buildNative
    split
    · exact ⟨[], by simp, rfl, .inr ⟨rfl, by simp⟩⟩
    · exact ⟨[.log .error _], by simp [Event.isRemark], rfl, .inr ⟨rfl, by simp⟩⟩
    · split
      · exact ⟨[.log .error _], by simp [Event.isRemark], rfl, .inr ⟨rfl, by simp⟩⟩
      · exact ⟨[], by simp, rfl, .inl ⟨_, _, rfl, .native _⟩⟩

theorem Upholds.run (hR : Upholds R) (b : Bridge τ) (s : Session σ τ) (node : NodeId)
    (count : Option Int) : R s (s.run b node count).2 := by
  unfold Session.run
  split
  · exact hR.log s _ _
  · dsimp only
    split
    · exact hR.log s _ _
    · next body _ =>
      obtain ⟨es, hes, he, ⟨text, work, hw, hb⟩ | ⟨hl, hno⟩⟩ :=
        build_begins b s (s.tree.name node) body count
      · rw [show s.build b (s.tree.name node) body count =
          (.ok (some (text, work)), { s with journal := es ++ s.journal }) from Prod.ext hw he]
        dsimp only
        split
        · exact hR.told s (.log .error _ :: es) (List.forall_mem_cons.2 ⟨rfl, hes⟩) rfl
        · exact hR.launch s es node text work hes hb
      · have ht := hR.told s es hes hl
        rw [← he] at ht
        split
        · next hr => rw [hr] at ht; exact ht
        · next hr => rw [hr] at ht; exact ht
        · next hr => rw [hr] at hno; exact absurd rfl (hno _)

theorem Upholds.runByName (hR : Upholds R) (b : Bridge τ) (s : Session σ τ) (name : Value)
    (count : Option Int) : R s (s.runByName b name count).2 := by
  unfold Session.runByName
  split
  · exact hR.refl s
  · exact hR.run b s _ count
  · exact hR.refl s

theorem Upholds.runNested (hR : Upholds R) (b : Bridge τ) (s : Session σ τ) (name : Value) :
    R s (s.runNested b name).2 := by
  unfold Session.runNested
  split
  · exact hR.refl s
  · have h := hR.runByName b s name none
    split <;> next hr => rw [hr] at h; exact h

/-! Other control calls. -/

theorem Upholds.markTop (hR : Upholds R) (s : Session σ τ) (p q : Frame τ → Bool) :
    R s (s.markTop fun f => { f with pauseAtLoop := p f, stopAtLoop := q f }) := by
  unfold Session.markTop
  split
  · exact hR.mark s _ p q
  · exact hR.refl s

theorem Upholds.pause (hR : Upholds R) (s : Session σ τ) (atLoop : Bool) : R s (s.pause atLoop) := by
  unfold Session.pause
  split
  · unfold pauseAtLoop
    split
    · exact hR.refl s
    · exact hR.trans (hR.markTop s (fun _ => true) (·.stopAtLoop)) (hR.log _ _ _)
  · unfold pauseNow
    split
    · exact hR.trans (hR.state s .paused) (hR.log _ _ _)
    · split
      · exact hR.flags s .paused s.freshRun s.stopEvent
      · exact hR.refl s

theorem Upholds.resume (hR : Upholds R) (s : Session σ τ) : R s s.resume := by
  unfold Session.resume
  split
  · exact hR.trans (hR.state s .running) (hR.log _ _ _)
  · split
    · exact hR.flags s .running s.freshRun s.stopEvent
    · exact hR.refl s

theorem Upholds.stop (hR : Upholds R) (s : Session σ τ) (atLoop : Bool) : R s (s.stop atLoop) := by
  unfold Session.stop
  split
  · exact hR.refl s
  · split
    · exact hR.trans (hR.markTop s (·.pauseAtLoop) fun _ => true) (hR.log _ _ _)
    · exact hR.trans (hR.halt s) (hR.log _ _ _)

theorem Upholds.control (hR : Upholds R) (b : Bridge τ) (s : Session σ τ) (c : Control) :
    R s (c.apply b s) := by
  have h1 := hR.note s (.calling c) rfl
  have h2 : R (s.record (.calling c)) (c.perform b (s.record (.calling c))).2 := by
    cases c with
    | run node count => exact hR.run b _ node count
    | runByName name count => exact hR.runByName b _ (.text name) count
    | pause atLoop => exact hR.pause _ atLoop
    | resume => exact hR.resume _
    | stop atLoop => exact hR.stop _ atLoop
  exact hR.trans h1 (hR.trans h2 (hR.note _ _ rfl))

theorem Upholds.admits (hR : Upholds R) (b : Bridge τ) (o : Oracle σ τ) : Admits b o R where
  refl := hR.refl
  trans := hR.trans
  client s _ := hR.client s _
  control c _ := hR.control b _ c
  start name _ _ := hR.runNested b _ name
  say s level message := hR.note s (.log level message) rfl

/-! The driver by itself. -/

theorem Upholds.enterNotReady (hR : Upholds R) (s : Session σ τ) : R s s.enterNotReady := by
  unfold Session.enterNotReady
  split
  · exact hR.refl s
  · exact hR.trans (hR.flags s s.state s.freshRun s.stopEvent)
      (hR.trans (hR.state _ .notReady) (hR.log _ _ _))

theorem Upholds.begin (hR : Upholds R) (s : Session σ τ) : R s s.begin := by
  unfold Session.begin
  split
  · exact hR.flags s s.prior false false
  · exact hR.refl s

theorem Upholds.recover (hR : Upholds R) (h : s.Sound) : R s (s.recover (.ofOracle b o)) := by
  unfold Session.recover
  split
  · have h1 := (hR.admits b o).respond .ready h
    dsimp only
    split
    · exact hR.trans h1 (hR.trans (hR.state _ _) (hR.log _ _ _))
    · exact h1
  · exact hR.refl s

/-! After a line. -/

theorem Upholds.loopFlags (hR : Upholds R) (s : Session σ τ) (id : Nat) :
    R s (s.loopFlags id) := by
  unfold Session.loopFlags
  split
  · exact hR.refl s
  · split
    · exact hR.trans (hR.log _ _ _) (hR.halt _)
    · split
      · have h1 := hR.mark s id (fun _ => false) (·.stopAtLoop)
        dsimp only
        split
        · exact hR.trans h1 (hR.trans (hR.state _ _) (hR.log _ _ _))
        · exact hR.trans h1 (hR.log _ _ _)
      · exact hR.refl s

theorem Upholds.reportLoop (hR : Upholds R) (s : Session σ τ) (name : Value) (done : Nat)
    (n : Option Int) : R s (s.reportLoop name done n).2 := by
  have h1 := hR.note s (.loop name done n) rfl
  unfold Session.reportLoop
  dsimp only
  split
  · exact h1
  · exact hR.trans h1 (hR.emitStatus _)
  · exact hR.trans h1 (hR.trans (hR.log _ _ _) (hR.emitStatus _))

theorem Upholds.loopBoundary (hR : Upholds R) (s : Session σ τ) (id k : Nat) (n : Option Int) :
    R s (s.loopBoundary id k n).2 := by
  unfold Session.loopBoundary
  split
  · exact hR.refl s
  · next g _ =>
    split
    · exact hR.loopFlags s id
    · split
      · exact hR.loopFlags s id
      · next w _ =>
        have h1 := hR.native s id fun w => passLoop w k n
        have h2 := hR.reportLoop (s.modifyNative id fun w => passLoop w k n)
          ((s.modifyNative id fun w => passLoop w k n).nameOf g) (w.loopsDone + 1) n
        dsimp only
        split
        · split
          · next hr => rw [hr] at h2; exact hR.trans h1 h2
          · next hr => rw [hr] at h2; exact hR.trans h1 (hR.trans h2 (hR.loopFlags _ id))
        · exact hR.trans h1 (hR.loopFlags _ id)

theorem Upholds.settle (hR : Upholds R) (s : Session σ τ) (id : Nat) (i : Instruction) (x : Outcome) :
    R s (s.settle id i x).2 := by
  unfold Session.settle
  split
  · exact hR.refl s
  · next f hf =>
    split
    · exact hR.refl s
    · dsimp only
      split
      · exact hR.refl s
      · exact hR.trans (hR.log _ _ _) (hR.pop .failed (frame?_some hf).1)
      · exact hR.log _ _ _

theorem Upholds.popIfDone (hR : Upholds R) (s : Session σ τ) (id : Nat) : R s (s.popIfDone id) := by
  rcases popIfDone_cases s id with he | ⟨f, hf, he⟩
  · rw [he]
    exact hR.refl s
  · rw [he]
    exact hR.pop .completed hf

theorem Upholds.popIfOwned (hR : Upholds R) (s : Session σ τ) (id : Nat) (r : FrameResult) :
    R s (s.popIfOwned id r) := by
  rcases popIfOwned_cases s id r with he | ⟨f, hf, he⟩
  · rw [he]
    exact hR.refl s
  · rw [he]
    exact hR.pop r hf

theorem Upholds.afterNative (hR : Upholds R) (s : Session σ τ) (id k : Nat) (i : Instruction)
    (x : LineResult) : R s (s.afterNative id k i x).2 := by
  unfold Session.afterNative
  cases x with
  | none =>
    dsimp only
    split
    · exact hR.trans (hR.native s id fun w => { w with cursor := k })
        (hR.trans (hR.enterNotReady _) (hR.emitStatus _))
    · exact hR.refl s
  | some x =>
    have h1 := hR.settle s id i x
    dsimp only
    split
    · next hr => rw [hr] at h1; exact h1
    · next hr => rw [hr] at h1; exact h1
    · next t hr =>
      rw [hr] at h1
      split
      · have h2 := hR.loopBoundary t id k (loopCount i)
        split
        · next hb => rw [hb] at h2; exact hR.trans h1 h2
        · next hb => rw [hb] at h2; exact hR.trans h1 (hR.trans h2 (hR.popIfDone _ id))
      · exact hR.trans h1 (hR.popIfDone t id)

theorem Upholds.afterScript (hR : Upholds R) (s : Session σ τ) (id : Nat) (line : String)
    (i : Instruction) (x : LineResult) : R s (s.afterScript id line i x).2 := by
  unfold Session.afterScript
  cases x with
  | none =>
    dsimp only
    split
    · exact hR.trans (hR.script s id (fun w => { w with pendingLine := some line }) fun _ => rfl)
        (hR.enterNotReady _)
    · exact hR.refl s
  | some x =>
    have h1 := hR.script s id (fun w => { w with pendingResult := .flag x.ok }) fun _ => rfl
    have h2 := hR.trans h1 (hR.settle _ id i x)
    dsimp only
    split
    · next hr => rw [hr] at h2; exact h2
    · next hr => rw [hr] at h2; exact h2
    · next t hr =>
      rw [hr] at h2
      split
      · exact hR.trans h2 (hR.loopFlags t id)
      · exact h2

/-! A line, and what leads up to it. -/

theorem Upholds.perform (hR : Upholds R) (h : s.Sound) (f : Frame τ) (i : Instruction) :
    R s (s.perform (.ofOracle b o) b f i).2 := by
  have h0 := hR.note s (.handed f.id i) rfl
  have h1 := hR.trans h0 ((hR.admits b o).routine
    (Execution.execute (s.record (.handed f.id i)).settings i).run (h.of_eq rfl rfl rfl rfl)
    ⟨f.id, i, by simp [record]⟩)
  unfold Session.perform
  dsimp only
  split
  · next hr => rw [hr] at h1; exact hR.trans h1 (hR.note _ _ rfl)
  · next hr => rw [hr] at h1; exact hR.trans h1 (hR.log _ _ _)
  · next hr => rw [hr] at h1; exact h1
  · next hr => rw [hr] at h1; exact hR.trans h1 (hR.trans (hR.log _ _ _) (hR.note _ _ rfl))

theorem Upholds.advanceNative (hR : Upholds R) (h : s.Sound) {w : NativeWork} (hf : f ∈ s.stack)
    (hw : f.work = .native w) : R s (s.advanceNative (.ofOracle b o) b f w).2 := by
  unfold Session.advanceNative
  split
  · exact hR.pop .completed hf
  · next i hi =>
    have hs := Changes.sound (stepOver_spec (o := o) h hf hw hi).1 h
    have h1 := hR.trans (hR.trans (hR.native s f.id fun w => { w with cursor := w.cursor + 1 })
      (hR.emitStatus _)) (hR.perform (b := b) (o := o) hs f i)
    unfold stepOver at h1
    dsimp only
    split
    · next hp => rw [hp] at h1; exact h1
    · next x t hp => rw [hp] at h1; exact hR.trans h1 (hR.afterNative t _ _ i x)

theorem Upholds.scriptLine (hR : Upholds R) (h : s.Sound) (f : Frame τ) (line : String) (k : Int) :
    R s (s.scriptLine (.ofOracle b o) b f line k).2 := by
  have h0 := hR.emitStatus s
  unfold Session.scriptLine
  dsimp only
  split
  · exact hR.trans h0 (hR.trans (hR.log _ _ _) (hR.script _ _ _ fun _ => rfl))
  · exact hR.trans h0 (hR.script _ _ _ fun _ => rfl)
  · next i _ =>
    have hs : s.emitStatus.Sound := h.of_eq rfl rfl rfl rfl
    have h1 := hR.trans h0 (hR.perform (b := b) (o := o) hs f i)
    split
    · next hp => rw [hp] at h1; exact h1
    · next x t hp => rw [hp] at h1; exact hR.trans h1 (hR.afterScript t _ _ i x)

/-- A script that was interrupted at a line. -/
theorem Upholds.again (hR : Upholds R) (h : s.Sound) {line : String}
    (hp : w.pendingLine = some line) (f : Frame τ) :
    R s (s.advanceScript (.ofOracle b o) b f w).2 := by
  unfold Session.advanceScript
  rw [hp]
  have h1 := hR.script s f.id (fun w => { w with pendingLine := none }) fun _ => rfl
  have hs := Changes.sound (script_change (o := o) s f.id fun w => { w with pendingLine := none }) h
  exact hR.trans h1 (hR.scriptLine hs f line _)

/-- What follows a step of a script. -/
theorem Upholds.onward (hR : Upholds R) (hp : w.pendingLine = none)
    (h : (s.scriptStep (.ofOracle b o) b f w).2.Sound) :
    R (s.scriptStep (.ofOracle b o) b f w).2 (s.advanceScript (.ofOracle b o) b f w).2 := by
  unfold Session.advanceScript
  rw [hp]
  dsimp only
  split
  · next t hr =>
    rw [hr]
    exact hR.trans (hR.log t _ _) (hR.popIfOwned _ f.id .failed)
  · next t hr =>
    rw [hr]
    exact hR.popIfOwned t f.id .completed
  · next line t hr =>
    rw [hr] at h ⊢
    have h1 := hR.script t f.id (fun w => { w with steps := w.steps + 1 }) fun _ => rfl
    have hs := Changes.sound (script_change (o := o) t f.id fun w => { w with steps := w.steps + 1 }) h
    exact hR.trans h1 (hR.scriptLine hs f line _)

/-! Operations. -/

/-- The relation also holds across an advance of a script. -/
structure Governs (b : Bridge τ) (o : Oracle σ τ) (R : Session σ τ → Session σ τ → Prop) : Prop
    extends Upholds R where
  advanceScript : ∀ {s f w}, s.Sound → f ∈ s.stack → f.work = .script w →
    R s (s.advanceScript (.ofOracle b o) b f w).2
  close : ∀ s : Session σ τ, R s { s with closed := true, hasRunner := false }
  edit : ∀ (s : Session σ τ) (tree : Tree) (settings : Settings),
    R s { s with tree := tree, settings := settings }

theorem Governs.advance (hR : Governs b o R) (h : s.Sound) :
    R s (s.advance (.ofOracle b o) b).2 := by
  have hs := Changes.sound (begin_changes (o := o) s) h
  refine hR.trans (hR.begin s) ?_
  unfold Session.advance advanceTop
  split
  · exact hR.state _ _
  · next f ht =>
    split
    · next hw => exact hR.advanceNative hs (top?_mem ht) hw
    · next hw => exact hR.advanceScript hs (top?_mem ht) hw

theorem Governs.tick (hR : Governs b o R) (h : s.Sound) : R s (s.tick (.ofOracle b o) b).2 := by
  have h1 := hR.recover (b := b) (o := o) h
  have hs1 := Changes.sound (recover_changes (o := o) (b := b) h) h
  have h2 : R s (s.tickStart (.ofOracle b o)) := hR.trans h1 ((hR.admits b o).respond .ready hs1)
  have hs2 := (tickStart_meanwhile (o := o) (b := b) h).changes.sound hs1
  rcases tick_cases (.ofOracle b o) b s with ⟨-, ht⟩ | ⟨-, ht⟩ | ⟨-, ht⟩ <;> rw [ht]
  · exact h1
  · exact hR.trans h2 (hR.enterNotReady _)
  · exact hR.trans h2 (hR.advance hs2)

theorem Governs.step (hR : Governs b o R) (h : s.Sound) : R s (s.step (.ofOracle b o) b).2 := by
  have h1 : R s (s.stepStart (.ofOracle b o)) := (hR.admits b o).respond .ready h
  have h2 := hR.trans h1 (hR.advance ((stepStart_meanwhile (o := o) (b := b) h).changes.sound h))
  rcases step_cases (.ofOracle b o) b s with
    ht | ⟨-, ht⟩ | ⟨-, e, s', ha, ht⟩ | ⟨-, a, s', ha, ht⟩ <;> rw [ht]
  · exact hR.refl s
  · exact hR.trans h1 (hR.enterNotReady _)
  · rw [ha] at h2
    exact h2
  · rw [ha] at h2
    dsimp only
    split
    · exact hR.trans h2 (hR.state _ _)
    · exact h2

theorem Governs.operation (hR : Governs b o R) (h : s.Sound) (x : Operation) :
    R s (x.apply (.ofOracle b o) b s) := by
  cases x with
  | control c => exact hR.control b s c
  | tick => exact hR.tick h
  | step => exact hR.step h
  | shutdown => exact hR.trans (hR.stop s false) (hR.close _)
  | edit tree settings => exact hR.edit s tree settings

/-- What holds at the beginning and is kept by every operation holds of all sessions that come about. -/
theorem Governs.reachable {I : Session σ τ → Prop} (hR : Governs b o fun s t => I s → I t)
    (hidle : ∀ tree settings registry client, I (.idle tree settings registry client))
    (h : s.Reachable (.ofOracle b o) b) : I s := by
  induction h with
  | idle tree settings registry client => exact hidle tree settings registry client
  | after x h ih => exact hR.operation h.sound x ih

end Session

end Macros
