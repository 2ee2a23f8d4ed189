import Macros.Proofs.Scheduler.Contained
import Macros.Proofs.Scheduler.Ledger
import Macros.Proofs.Scheduler.Suspended
import Macros.Proofs.Scheduler.TakenOff

/-!
How frames end. A stop takes frames off as stopped; the driver takes one off when its macro has come to its
end, or its line or its script has failed, and all of them when a loop line has been completed in a frame
that is marked. Every frame is taken off once, and how it ended is told once.
-/

namespace Macros

open Session

variable {σ τ : Type}

/-- The session once the outcome of a native line has been dealt with; its macro may be done. -/
def Flight.looked (l : Flight σ τ) (t : Session σ τ) (k : Nat) (x : Outcome) : Session σ τ :=
  if completesLoop l.line x then (t.loopBoundary l.frame.id k (loopCount l.line)).2
  else (t.settle l.frame.id l.line x).2

namespace Session

variable {c : Client σ τ} {o : Oracle σ τ} {b : Bridge τ} {s s' t u : Session σ τ} {f g : Frame τ}
  {l : Flight σ τ} {x : Outcome} {Q : Nat → FrameResult → List Event → Prop}

/-- The driver takes a frame off while it advances the innermost one. -/
inductive Ending (c : Client σ τ) (b : Bridge τ) (u : Session σ τ) : Nat → FrameResult → List Event → Prop
  /-- A native macro has no more lines. -/
  | spent {f : Frame τ} {w : NativeWork} (top : u.begin.top? = some f) (work : f.work = .native w)
    (done : w.instructions.length ≤ w.cursor) : Ending c b u f.id .completed u.begin.journal
  /-- It has been taken past its last line, which has landed. -/
  | lastLine {l : Flight σ τ} {k : Nat} {x : Outcome} {t : Session σ τ} {f : Frame τ} {w : NativeWork}
    (flight : u.flight? c b = some l) (origin : l.origin = .native k)
    (landed : l.landed c b = (.ok (some x), t)) (top : (l.looked t k x).top? = some f)
    (own : f.id = l.frame.id) (work : f.work = .native w) (done : w.instructions.length ≤ w.cursor) :
    Ending c b u l.frame.id .completed (l.looked t k x).journal
  /-- A script has returned. -/
  | returned {f : Frame τ} {w : ScriptWork τ} (top : u.begin.top? = some f) (work : f.work = .script w)
    (resumed : w.pendingLine = none) (signal : (w.dueStep b).signal = .returned) {js : List Event}
    (later : (u.begin.scriptStep c b f w).2.journal <:+ js) : Ending c b u f.id .completed js
  /-- A script has failed. -/
  | raised {f : Frame τ} {w : ScriptWork τ} {why : ScriptFailure} (top : u.begin.top? = some f)
    (work : f.work = .script w) (resumed : w.pendingLine = none)
    (signal : (w.dueStep b).signal = .failed why) {js : List Event}
    (later : (u.begin.scriptStep c b f w).2.journal <:+ js) : Ending c b u f.id .failed js
  /-- A line of the frame has failed in a way that stops it. -/
  | unfit {l : Flight σ τ} {x : Outcome} {t : Session σ τ} (flight : u.flight? c b = some l)
    (landed : l.landed c b = (.ok (some x), t)) (there : t.owns l.frame.id)
    (stops : t.settings.isStopWorthy x = .ok true) {js : List Event} (later : t.journal <:+ js) :
    Ending c b u l.frame.id .failed js
  /-- A loop line has been completed in a frame that is marked to stop there. -/
  | marked {l : Flight σ τ} {x : Outcome} {t : Session σ τ} {g f : Frame τ}
    (flight : u.flight? c b = some l) (landed : l.landed c b = (.ok (some x), t))
    (there : t.frame? l.frame.id = some g) (mark : g.stopAtLoop) (loop : completesLoop l.line x)
    (on : f ∈ t.stack) {js : List Event} (later : t.journal <:+ js) : Ending c b u f.id .stopped js

theorem popIfDone_pops {id : Nat} (h : ∀ f w, s.top? = some f → f.id = id → f.work = .native w →
    w.instructions.length ≤ w.cursor → Q id .completed s.journal) : PopsOnly Q s (s.popIfDone id) := by
  unfold Session.popIfDone
  split
  · exact .refl s
  · next f hf =>
    split
    · exact .refl s
    · next hid =>
      have hid : f.id = id := by simpa using hid
      split
      · next w hw =>
        split
        · next hd =>
          have hq := h f w hf hid hw hd
          rw [← hid] at hq
          exact .pop s f hq
        · exact .refl s
      · exact .refl s

theorem loopFlags_pops {id : Nat} (hg : s.frame? id = some g) (h : g.stopAtLoop → ∀ f ∈ s.stack, ∀ js,
    s.journal <:+ js → Q f.id .stopped js) : PopsOnly Q s (s.loopFlags id) := by
  unfold Session.loopFlags
  rw [hg]
  dsimp only
  split
  · next hs =>
    exact (remarked_log s _ _).popsOnly.trans (PopsOnly.halt fun f hf es _ =>
      h hs f hf _ ((List.suffix_cons _ _).trans (List.suffix_append _ _)))
  · split
    · refine Mild.popsOnly (Mild.trans ?_ (remarked_log _ _ _).mild)
      split
      · exact (Mild.same rfl rfl).trans (setState_mild _ _)
      · exact .same rfl rfl
    · exact .refl s

theorem not_completesLoop {i : Instruction} (hx : x.ok = false) : completesLoop i x = false :=
  Bool.eq_false_iff.2 fun hc => by rw [completesLoop_ok hc] at hx; cases hx

/-- Settling a line takes its own frame off, where the outcome stops it. -/
theorem settle_pops (s : Session σ τ) (id : Nat) (i : Instruction) (x : Outcome)
    (h : s.owns id → s.settings.isStopWorthy x = .ok true → ∀ js, s.journal <:+ js → Q id .failed js) :
    PopsOnly Q s (s.settle id i x).2 := by
  have hset := settles s id i x
  generalize s.settle id i x = p at hset
  cases hset with
  | gone => exact .refl s
  | unread => exact .refl s
  | fine => exact .refl s
  | goesOn hg hf hw => exact (remarked_log _ _ _).popsOnly
  | stops hg hw =>
    obtain ⟨-, rfl⟩ := frame?_some hg
    exact (remarked_log _ _ _).popsOnly.trans
      (.pop _ _ (h (owns_of_frame? hg) hw _ (List.suffix_cons _ _)))

/-- What follows a native line. -/
theorem afterNative_pops {k : Nat} (hl : u.flight? c b = some l) (ho : l.origin = .native k)
    (hx : l.landed c b = (.ok (some x), t)) :
    PopsOnly (Ending c b u) t (t.afterNative l.frame.id k l.line (some x)).2 := by
  have hdone : ∀ v, l.looked t k x = v → PopsOnly (Ending c b u) v (v.popIfDone l.frame.id) := by
    rintro v rfl
    exact popIfDone_pops fun f w hf hid hw hd => .lastLine hl ho hx hf hid hw hd
  have h := settles t l.frame.id l.line x
  have hs : PopsOnly (Ending c b u) t (t.settle l.frame.id l.line x).2 :=
    settle_pops t _ _ _ fun hown hw _ hj => .unfit hl hx hown hw hj
  unfold Session.afterNative
  unfold Flight.looked at hdone
  dsimp only
  cases hr : t.settle l.frame.id l.line x with
  | mk a v =>
    rw [hr] at h hs hdone
    cases h with
    | gone => exact hs
    | unread => exact hs
    | stops => exact hs
    | goesOn hg hf hw =>
      have hc := not_completesLoop (i := l.line) hf
      rw [if_neg (by simp [hc])] at hdone
      simp only [hc, Bool.false_eq_true, if_false]
      exact hs.trans (hdone _ rfl)
    | fine hg hok =>
      by_cases hc : completesLoop l.line x
      · rw [if_pos hc] at hdone
        simp only [hc, if_true]
        rcases loopBoundary_marks hg k (loopCount l.line) with ⟨-, e, t', ht, hb⟩ | ⟨t', ht, hsame, hb⟩
        · rw [hb]
          exact ht.popsOnly
        · rw [hb] at hdone ⊢
          obtain ⟨g', hg', htag⟩ := frame?_of_tags ht.unmoved.tags hg
          refine ht.popsOnly.trans ((loopFlags_pops hg' fun hm f hf js hj => ?_).trans (hdone _ rfl))
          have hm : _ = true := (congrArg (·.2.2.2.2) htag).symm.trans hm
          rw [hsame hm] at hf hj
          exact .marked hl hx hg hm hc hf hj
      · rw [if_neg hc] at hdone
        simp only [hc, Bool.false_eq_true, if_false]
        exact hdone _ rfl

/-- What follows a line of a script. -/
theorem afterScript_pops {line : String} (hl : u.flight? c b = some l)
    (hx : l.landed c b = (.ok (some x), t)) :
    PopsOnly (Ending c b u) t (t.afterScript l.frame.id line l.line (some x)).2 := by
  let v := t.modifyScript l.frame.id fun w => { w with pendingResult := .flag x.ok }
  have htags : ∀ g, v.frame? l.frame.id = some g → ∃ g', t.frame? l.frame.id = some g' ∧ g'.tag = g.tag :=
    fun g hg => frame?_of_tags (modifyScript_map (p := Frame.tag) (fun _ _ => rfl) t _ _).symm hg
  have h0 : PopsOnly (Ending c b u) t v := .same rfl
  have h := settles v l.frame.id l.line x
  have hs : PopsOnly (Ending c b u) v (v.settle l.frame.id l.line x).2 :=
    settle_pops v _ _ _ fun hown hw _ hj => .unfit hl hx (modifyScript_owns t _ _ _ ▸ hown) hw hj
  refine h0.trans ?_
  unfold Session.afterScript
  dsimp only
  cases hr : v.settle l.frame.id l.line x with
  | mk a v' =>
    rw [hr] at h hs
    cases h with
    | gone => exact hs
    | unread => exact hs
    | stops => exact hs
    | goesOn hg hf hw =>
      have hc := not_completesLoop (i := l.line) hf
      simp only [hc, Bool.false_eq_true, if_false]
      exact hs
    | fine hg hok =>
      by_cases hc : completesLoop l.line x
      · simp only [hc, if_true]
        obtain ⟨g', hg', htag⟩ := htags _ hg
        refine loopFlags_pops hg fun hm f hf js hj => ?_
        obtain ⟨f', hf', hid⟩ := List.mem_map.1
          (modifyScript_map (p := (·.id)) (fun _ _ => rfl) t l.frame.id _ ▸ List.mem_map_of_mem hf)
        rw [← hid]
        exact .marked hl hx hg' ((congrArg (·.2.2.2.2) htag).trans hm) hc hf' hj
      · simp only [hc, Bool.false_eq_true, if_false]
        exact .refl v

/-- After an outage no frame is taken off. -/
theorem follow_outage_mild (l : Flight σ τ) (t : Session σ τ) : Mild t (l.follow t none).2 := by
  unfold Flight.follow
  split
  · unfold Session.afterNative
    dsimp only
    split
    · have h1 : ∀ k, Mild t (t.modifyNative l.frame.id fun w => { w with cursor := k }) := fun _ =>
        .same rfl rfl
      exact (h1 _).trans ((enterNotReady_mild _).trans (remarked_emitStatus _).mild)
    · exact .refl t
  · unfold Session.afterScript
    dsimp only
    split
    · have h1 : ∀ line, Mild t (t.modifyScript l.frame.id fun w => { w with pendingLine := line }) :=
        fun _ => .same rfl rfl
      exact (h1 _).trans (enterNotReady_mild _)
    · exact .refl t

/-- A stop that is under way takes frames off, or the driver does. -/
def Taken (c : Client σ τ) (b : Bridge τ) (u : Session σ τ) (id : Nat) (r : FrameResult) (js : List Event) :
    Prop :=
  Halted id r js ∨ Ending c b u id r js

theorem PopsOnly.halted (h : PopsOnly Halted s s') : PopsOnly (Taken c b u) s s' :=
  h.mono fun _ _ _ _ => .inl

theorem PopsOnly.ended (h : PopsOnly (Ending c b u) s s') : PopsOnly (Taken c b u) s s' :=
  h.mono fun _ _ _ _ => .inr

/-- An advance by which a line is handed over. -/
theorem conclude_pops (h : u.Sound) (hl : u.flight? (.ofOracle b o) b = some l) :
    PopsOnly (Taken (.ofOracle b o) b u) u (l.conclude (.ofOracle b o) b).2 := by
  have h1 := (landed_pops h hl).halted (c := .ofOracle b o) (b := b) (u := u)
  unfold Flight.conclude
  cases hx : l.landed (.ofOracle b o) b with
  | mk a t =>
    rw [hx] at h1
    cases a with
    | error e => exact h1
    | ok x =>
      refine h1.trans ?_
      cases x with
      | none => exact (follow_outage_mild l t).popsOnly
      | some x =>
        dsimp only
        unfold Flight.follow
        split
        · next k ho => exact (afterNative_pops hl ho hx).ended
        · next line ho => exact (afterScript_pops hl hx).ended

theorem popIfOwned_pops {id : Nat} {r : FrameResult} (h : Q id r s.journal) :
    PopsOnly Q s (s.popIfOwned id r) := by
  unfold Session.popIfOwned
  split
  · next f hf =>
    obtain ⟨-, rfl⟩ := frame?_some hf
    exact .pop s f h
  · exact .refl s

theorem scriptStep_pops (h : s.Sound) (f : Frame τ) (w : ScriptWork τ) :
    PopsOnly Halted s (s.scriptStep (.ofOracle b o) b f w).2 := by
  obtain ⟨n, t, ht, hr⟩ := scriptStep_readied (.ofOracle b o) b s f w
  exact Readied.hostCalls_pops h ht hr

/-- A script is resumed and yields no line that says anything. -/
theorem advanceScript_pops {w : ScriptWork τ} (h : u.begin.Sound) (ht : u.begin.top? = some f)
    (hw : f.work = .script w) (hr : w.run.Suspended)
    (hl : u.begin.scriptFlight? (.ofOracle b o) b f w = none) :
    PopsOnly (Taken (.ofOracle b o) b u) u.begin (u.begin.advanceScript (.ofOracle b o) b f w).2 := by
  have h0 : ∀ (s : Session σ τ) (m : ScriptWork τ → ScriptWork τ),
      PopsOnly (Taken (.ofOracle b o) b u) s (s.modifyScript f.id m) := fun _ _ => .same rfl
  have h1 := (scriptStep_pops (b := b) (o := o) h f w).halted (c := .ofOracle b o) (b := b) (u := u)
  have hstep := scriptStep_eq (s := u.begin) (b := b) (f := f) (.ofOracle b o) hr
  unfold scriptFlight? at hl
  cases hp : w.pendingLine with
  | some line =>
    rw [hp] at hl
    obtain ⟨-, h2⟩ := scriptLine_grounded (c := .ofOracle b o) (b := b) hl
    unfold Session.advanceScript
    rw [hp]
    exact (h0 _ _).trans h2.worked.popsOnly
  | none =>
    cases hx : (w.dueStep b).signal with
    | yielded v next =>
      unfold Session.advanceScript
      rw [hp] at hl ⊢
      rw [hx] at hstep
      simp only [hstep, ScriptRun.finish] at hl h1 ⊢
      obtain ⟨-, h2⟩ := scriptLine_grounded (c := .ofOracle b o) (b := b) hl
      exact h1.trans ((h0 _ _).trans h2.worked.popsOnly)
    | returned =>
      rw [advanceScript_returned _ hr hp hx]
      exact h1.trans (popIfOwned_pops (.inr (.returned ht hw hp hx (List.suffix_refl _))))
    | failed why =>
      rw [advanceScript_failed _ hr hp hx]
      exact h1.trans ((remarked_log _ _ _).popsOnly.trans
        (popIfOwned_pops (.inr (.raised ht hw hp hx (List.suffix_cons _ _)))))

theorem begin_suspended (h : s.Suspended) : s.begin.Suspended := by
  unfold Session.begin
  split
  · exact h
  · exact h

/-- An advance by which no line is handed over. -/
theorem grounded_pops (h : u.Sound) (hr : u.Suspended) (hl : u.flight? (.ofOracle b o) b = none) :
    PopsOnly (Taken (.ofOracle b o) b u) u (u.advance (.ofOracle b o) b).2 := by
  refine (begin_pops u).trans ?_
  unfold flight? topFlight? at hl
  unfold Session.advance advanceTop
  cases ht : u.begin.top? with
  | none => exact (setState_mild _ _).popsOnly
  | some f =>
    rw [ht] at hl
    dsimp only at hl ⊢
    cases hw : f.work with
    | native w =>
      rw [hw] at hl
      have hn := Option.map_eq_none_iff.1 hl
      dsimp only
      unfold Session.advanceNative
      rw [hn]
      exact .pop _ f (.inr (.spent ht hw (List.getElem?_eq_none_iff.1 hn)))
    | script w =>
      rw [hw] at hl
      exact advanceScript_pops ((begin_changes (o := o) u).sound h) ht hw
        (begin_suspended hr f (top?_mem ht) w hw) hl

theorem advance_pops (h : u.Sound) (hr : u.Suspended) :
    PopsOnly (Taken (.ofOracle b o) b u) u (u.advance (.ofOracle b o) b).2 := by
  cases hl : u.flight? (.ofOracle b o) b with
  | some l =>
    rw [advance_flight hl]
    exact conclude_pops h hl
  | none => exact grounded_pops h hr hl

/-! Operations. -/

theorem recover_pops (h : s.Sound) : PopsOnly Halted s (s.recover (.ofOracle b o)) := by
  have h1 := (halted b o).respond .ready h
  unfold Session.recover
  split
  · dsimp only
    split
    · exact h1.trans ((setState_mild _ _).trans (remarked_log _ _ _).mild).popsOnly
    · exact h1
  · exact .refl s

/-- A tick comes to advance a frame, or the run does not go on. -/
theorem tick_advances (c : Client σ τ) (b : Bridge τ) (s : Session σ τ) :
    Advances c b s (s.tickStart c) (s.tick c b) ∨ (s.tick c b).2 = s.recover c ∨
      (s.tick c b).2 = (s.tickStart c).enterNotReady := by
  by_cases hr : (s.recover c).state = .running
  · by_cases hy : (c.ready (s.recover c)).1
    · exact .inl (.tick hr hy rfl)
    · exact .inr (.inr (by simp [Session.tick, hr, hy, tickStart]))
  · exact .inr (.inl (by simp [Session.tick, hr]))

theorem step_advances (c : Client σ τ) (b : Bridge τ) (s : Session σ τ) :
    Advances c b s (s.stepStart c) (s.step c b) ∨ (s.step c b).2 = s ∨
      (s.step c b).2 = (s.stepStart c).enterNotReady := by
  by_cases hp : s.state = .paused ∧ ¬ s.stack.isEmpty
  · by_cases hy : (c.ready s).1
    · exact .inl (.step hp.1 hp.2 hy rfl)
    · exact .inr (.inr (by simp [Session.step, hp.1, hp.2, hy, stepStart]))
  · refine .inr (.inl ?_)
    unfold Session.step
    rw [if_pos (by simpa [or_iff_not_imp_left] using hp)]

theorem Advances.pops {out : Except Fault Bool × Session σ τ} (ha : Advances (.ofOracle b o) b s u out)
    (h : u.Sound) (hr : u.Suspended) : PopsOnly (Taken (.ofOracle b o) b u) u out.2 := by
  have h1 := advance_pops (b := b) (o := o) h hr
  rcases ha.advance.2 with he | he <;> rw [he]
  · exact h1
  · exact h1.trans (setState_mild _ _).popsOnly

/-- Why an operation takes a frame off, and how the frame ends then. -/
inductive Due (c : Client σ τ) (b : Bridge τ) (s : Session σ τ) (x : Operation) :
    Nat → FrameResult → List Event → Prop
  /-- A stop is under way. -/
  | stop {id : Nat} {js : List Event} (stopping : Journal.Stopping js) : Due c b s x id .stopped js
  | shutdown {f : Frame τ} {js : List Event} (operation : x = .shutdown) (on : f ∈ s.stack) :
    Due c b s x f.id .stopped js
  /-- The driver ends the frame. -/
  | driver {u : Session σ τ} {out : Except Fault Bool × Session σ τ} {id : Nat} {r : FrameResult}
    {js : List Event} (advances : Advances c b s u out) (result : x.apply c b s = out.2)
    (ending : Ending c b u id r js) : Due c b s x id r js

theorem PopsOnly.due {x : Operation} (h : PopsOnly Halted s s') : PopsOnly (Due c b t x) s s' :=
  h.mono fun _ _ _ _ hq => hq.1 ▸ .stop hq.2

theorem Advances.due {x : Operation} {out : Except Fault Bool × Session σ τ}
    (ha : Advances (.ofOracle b o) b s u out) (hx : x.apply (.ofOracle b o) b s = out.2) (h : u.Sound)
    (hr : u.Suspended) : PopsOnly (Due (.ofOracle b o) b s x) u out.2 :=
  (ha.pops h hr).mono fun _ _ _ _ hq =>
    hq.elim (fun hq => hq.1 ▸ .stop hq.2) fun hq => .driver ha hx hq

/-- The scripts can be resumed also after the client has been asked whether it is ready. -/
theorem ready_suspended (h : s.Sound) (hr : s.Suspended) : (o.respond b .ready s).2.Suspended :=
  ((allScripts_upholds fun _ _ _ => ⟨rfl, rfl⟩).admits b o).respond .ready h hr

theorem operation_pops (h : s.Sound) (hr : s.Suspended) (x : Operation) :
    PopsOnly (Due (.ofOracle b o) b s x) s (x.apply (.ofOracle b o) b s) := by
  cases x with
  | control k => exact (control_pops b s k).due
  | edit => exact .same rfl
  | shutdown =>
    have h1 : PopsOnly (Due (.ofOracle b o) b s .shutdown) s (s.stop false) := by
      unfold Session.stop
      split
      · exact .refl s
      · exact (PopsOnly.halt fun g hg _ _ => .shutdown rfl hg).trans (remarked_log _ _ _).popsOnly
    exact h1.trans (.same rfl)
  | tick =>
    have h1 := (recover_pops (b := b) (o := o) h).due (c := .ofOracle b o) (b := b) (t := s) (x := .tick)
    have hs1 := Changes.sound (recover_changes (o := o) (b := b) h) h
    have hr1 : (s.recover (.ofOracle b o)).Suspended :=
      (allScripts_upholds fun _ _ _ => ⟨rfl, rfl⟩).recover (b := b) (o := o) h hr
    have h2 := h1.trans ((halted b o).respond .ready hs1).due
    show PopsOnly _ s (s.tick (.ofOracle b o) b).2
    rcases tick_advances (.ofOracle b o) b s with ha | he | he
    · exact h2.trans (ha.due rfl ((tickStart_meanwhile (o := o) (b := b) h).changes.sound hs1)
        (ready_suspended hs1 hr1))
    · rw [he]
      exact h1
    · rw [he]
      exact h2.trans (enterNotReady_mild _).popsOnly
  | step =>
    have h1 := ((halted b o).respond .ready h).due (c := .ofOracle b o) (b := b) (t := s) (x := .step)
    show PopsOnly _ s (s.step (.ofOracle b o) b).2
    rcases step_advances (.ofOracle b o) b s with ha | he | he
    · exact h1.trans (ha.due rfl ((stepStart_meanwhile (o := o) (b := b) h).changes.sound h)
        (ready_suspended h hr))
    · rw [he]
      exact .refl s
    · rw [he]
      exact h1.trans (enterNotReady_mild _).popsOnly

/-- Every frame that is put on is taken off at most once; at once its script is closed, and observers are
told, once, how it ended, for which there is a reason. Nothing else is told to have ended. -/
theorem frames_finished_once (h : s.Reachable (.ofOracle b o) b) :
    Journal.Booked s.journal (s.stack.map kind) ∧ Journal.Balanced s.journal (s.stack.map (·.id)) ∧
      (Journal.pushes s.journal).length = (Journal.finishes s.journal).length + s.stack.length ∧
      ∀ x : Operation, PopsOnly (Due (.ofOracle b o) b s x) s (x.apply (.ofOracle b o) b s) := by
  have hb := h.booked.entries
  have hbal : Journal.Balanced s.journal (s.stack.map (·.id)) := by
    have := hb.balanced
    rwa [List.map_map] at this
  refine ⟨hb, hbal, ?_, operation_pops h.sound h.suspended⟩
  rw [hbal.count, List.length_map]

end Session

/-- A client that refuses whatever it is asked, while control calls come in as planned. -/
def Oracle.thwarted {τ : Type} : Oracle Plan τ := fun k s =>
  ((Oracle.fruitless k s).1, (s.client.headD (true, [])).2, s.client.tail)

namespace Session

/-- A macro starts a script, which returns, and then fails. Started again it is stopped while its second
line is run, as the script is started once more. Then a macro loops that is to stop at its loop line. -/
def variety : Session Plan Lines :=
  (Session.waiting [.native "A" "/runmacro S\n/target X", .script "S", .native "L" "/loop"]
    (List.replicate 7 (true, []) ++ [(true, [.stop false, .runByName "S" none])])).operate
    (.ofOracle (.listed []) .thwarted) (.listed [])
    [.control (.runByName "A" none), .tick, .tick, .tick, .control (.runByName "A" none), .tick, .tick, .tick,
      .tick, .control (.runByName "L" none), .control (.stop true)]

/-- Frames end in all three ways; the one that is left is taken off by the driver in the next tick. -/
theorem variety_finished :
    let c := Client.ofOracle (.listed []) Oracle.thwarted
    Journal.pops variety.journal = [(4, .completed), (2, .stopped), (3, .completed), (0, .failed), (1, .completed)] ∧
      Journal.Balanced variety.journal [5] ∧
      (∃ js, Due c (.listed []) variety .tick 5 .stopped js) ∧
      (variety.tick c (.listed [])).2.stack.length = 0 := by
  have h := frames_finished_once (s := variety) (b := .listed []) (o := .thwarted) (.operate (.idle ..) _)
  have hids : variety.stack.map (·.id) = [5] := by decide +kernel
  refine ⟨by decide +kernel, hids ▸ h.2.1, ?_, by decide +kernel⟩
  obtain ⟨⟨es, hj⟩, hdue⟩ := h.2.2.2 .tick
  have hj : (variety.tick (.ofOracle (.listed []) .thwarted) (.listed [])).2.journal =
      es ++ variety.journal := hj.symm
  have hnews : Journal.pops (variety.news (variety.tick (.ofOracle (.listed []) .thwarted) (.listed [])).2) =
      [(5, .stopped)] := by
    decide +kernel
  rw [news_eq hj] at hnews
  have hmem : (5, FrameResult.stopped) ∈ Journal.pops es := by rw [hnews]; simp
  obtain ⟨e, he, hpop⟩ := List.mem_filterMap.1 hmem
  obtain rfl : e = .popped 5 .stopped := by cases e <;> simp_all
  obtain ⟨ps, qs, rfl⟩ := List.append_of_mem he
  exact ⟨qs ++ variety.journal, hdue 5 .stopped _ ⟨ps, by rw [Operation.apply, hj]; simp⟩ (List.suffix_append _ _)⟩

end Session

end Macros
