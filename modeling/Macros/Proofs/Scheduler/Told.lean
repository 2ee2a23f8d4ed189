import Macros.Proofs.Scheduler.Film
import Macros.Proofs.Scheduler.Trace
import Mathlib.Data.List.Chain

/-!
What observers know of a session. The run state is reported where it is set, and only there. The status is
reported by itself: some updates leave it as it is, and the others end with a report of it; a control call is
made of both kinds.
-/

namespace Macros

open Session

variable {σ τ : Type}

namespace Journal

/-- The status that observers were told last. -/
def status : List Event → List (Value × Nat)
  | [] => []
  | .status rows :: _ => rows
  | _ :: es => status es

/-- The run states that observers were told, the latest first. -/
def states : List Event → List RunState
  | [] => []
  | .state x :: es => x :: states es
  | _ :: es => states es

theorem state_eq_head (es : List Event) : state es = (states es).headD .idle := by
  induction es with
  | nil => rfl
  | cons e es ih => cases e <;> first | exact ih | rfl

theorem states_append (es es' : List Event) : states (es ++ es') = states es ++ states es' := by
  induction es with
  | nil => rfl
  | cons e es ih => cases e <;> simp [states, ih]

end Journal

/-- The option that says whether loops go into the log can be read. -/
def Settings.EchoReadable (s : Settings) : Prop := ∃ echo, s.loopEcho = .ok echo

namespace Session

variable {o : Oracle σ τ} {b : Bridge τ} {s s' s'' : Session σ τ}

/-- No report of the run state repeats the one before. -/
def Changing (s : Session σ τ) : Prop := (Journal.states s.journal).IsChain (· ≠ ·)

/-- The status is as it was, and observers were not told of it. -/
structure Unshown (s s' : Session σ τ) : Prop where
  status : s'.status = s.status
  told : Journal.status s'.journal = Journal.status s.journal
  settings : s'.settings = s.settings
  client : s'.client = s.client

/-- Observers know the status, loops can be reported, and the client is as it should be. -/
structure Informed (Q : σ → Prop) (s : Session σ τ) : Prop where
  status : Journal.status s.journal = s.status
  echo : s.settings.EchoReadable
  client : Q s.client

/-! The run state. -/

theorem Changing.of_states (h : s.Changing) (hj : Journal.states s'.journal = Journal.states s.journal) :
    s'.Changing := by
  unfold Changing
  rw [hj]
  exact h

/-- A report of another run state than the present one. -/
theorem Changing.cons (h : s.Changing) (ht : s.Traced) {x : RunState} (hx : x ≠ s.state)
    (hj : Journal.states s'.journal = x :: Journal.states s.journal) : s'.Changing := by
  unfold Changing
  rw [hj, List.isChain_cons]
  refine ⟨fun y hy => ?_, h⟩
  have hlast : y = s.state := by
    rw [← ht.state, Journal.state_eq_head, List.headD_eq_head?_getD, Option.mem_def.1 hy]
    rfl
  exact hlast ▸ hx

theorem Changing.setState (h : s.Changing) (ht : s.Traced) (x : RunState) : (s.setState x).Changing := by
  by_cases hx : x = s.state
  · rwa [Session.setState, if_pos hx]
  · refine h.cons ht hx ?_
    rw [setState_eq, stateNews, if_neg hx]
    rfl

theorem Changing.push (h : s.Changing) (ht : s.Traced) (node : NodeId) (text : String) (work : Work τ) :
    (s.push node text work).Changing := by
  have hj : Journal.states (s.push node text work).journal =
      (if s.state = .notReady || s.state = .running then [] else [RunState.running]) ++
        Journal.states s.journal := by
    rw [push_eq, Journal.states_append, pushNews]
    split <;> rfl
  split at hj
  · exact h.of_states hj
  · next hx =>
    simp only [Bool.or_eq_true, decide_eq_true_eq, not_or] at hx
    exact h.cons ht (Ne.symm hx.2) hj

theorem Changing.pop (h : s.Changing) (ht : s.Traced) (f : Frame τ) (r : FrameResult) :
    (s.pop f r).Changing := by
  have hj : Journal.states (s.pop f r).journal =
      (if (s.without f.id).isEmpty ∧ RunState.idle ≠ s.state then [RunState.idle] else []) ++
        Journal.states s.journal := by
    rw [pop_eq, Journal.states_append, popNews]
    congr 1
    split <;> split <;> rfl
  split at hj
  · next hx => exact h.cons ht hx.2 hj
  · exact h.of_states hj

theorem Change.changing (hc : Change o s s') (ht : s.Traced) (h : s.Changing) : s'.Changing := by
  cases hc with
  | remark e he => exact h.of_states (by cases e <;> first | rfl | simp [Event.isRemark] at he)
  | push node text work => exact h.push ht node text work
  | pop f r => exact h.pop ht f r
  | pause | resume | leave | rest => exact h.setState ht _
  | await =>
    have ht : Traced { s with prior := s.state } := ht.of_ids rfl rfl rfl
    exact Changing.setState (s := { s with prior := s.state }) h ht _
  | _ => exact h.of_states rfl

theorem Changes.changing (hc : Changes o s s') (ht : s.Traced) (h : s.Changing) : s'.Changing := by
  induction hc with
  | refl => exact h
  | tail hc' hc ih => exact hc.changing (Changes.traced hc' ht) ih

/-! The status. -/

theorem Unshown.refl (s : Session σ τ) : Unshown s s := ⟨rfl, rfl, rfl, rfl⟩

theorem Unshown.trans (h : Unshown s s') (h' : Unshown s' s'') : Unshown s s'' :=
  ⟨h'.status.trans h.status, h'.told.trans h.told, h'.settings.trans h.settings,
    h'.client.trans h.client⟩

theorem log_unshown (s : Session σ τ) (level : Level) (message : String) :
    Unshown s (s.log level message) := ⟨rfl, rfl, rfl, rfl⟩

theorem setState_unshown (s : Session σ τ) (x : RunState) : Unshown s (s.setState x) := by
  rw [setState_eq]
  refine ⟨rfl, ?_, rfl, rfl⟩
  dsimp only
  rw [stateNews]
  split <;> rfl

theorem modify_unshown (s : Session σ τ) (id : Nat) {g : Frame τ → Frame τ}
    (hg : ∀ f ∈ s.stack, f.id = id → (g f).node = f.node ∧ (g f).position = f.position) :
    Unshown s (s.modify id g) := by
  refine ⟨?_, rfl, rfl, rfl⟩
  simp only [Session.status, Session.modify, List.map_map]
  refine List.map_congr_left fun f hf => ?_
  dsimp only [Function.comp]
  split
  · next hi => simp [nameOf, hg f hf hi]
  · rfl

theorem modifyScript_unshown (s : Session σ τ) (id : Nat) {g : ScriptWork τ → ScriptWork τ}
    (hg : ∀ w, (g w).steps = w.steps) : Unshown s (s.modifyScript id g) := by
  refine modify_unshown s id fun f _ _ => ?_
  cases hw : f.work with
  | native w => exact ⟨rfl, rfl⟩
  | script w => exact ⟨rfl, by simp [Frame.position, hw, hg]⟩

theorem enterNotReady_unshown (s : Session σ τ) : Unshown s s.enterNotReady := by
  unfold enterNotReady
  split
  · exact .refl s
  · have hp : Unshown s { s with prior := s.state } := ⟨rfl, rfl, rfl, rfl⟩
    exact (hp.trans (setState_unshown _ _)).trans (log_unshown _ _ _)

variable {Q : σ → Prop}

theorem Informed.unshown (h : s.Informed Q) (hu : Unshown s s') : s'.Informed Q :=
  ⟨(hu.told.trans h.status).trans hu.status.symm, hu.settings ▸ h.echo, hu.client ▸ h.client⟩

/-- Whatever has become of the status, observers have been told since. -/
theorem Informed.shown (h : s.Informed Q) (ht : Journal.status s'.journal = s'.status)
    (hs : s'.settings = s.settings) (hc : s'.client = s.client) : s'.Informed Q :=
  ⟨ht, hs ▸ h.echo, hc ▸ h.client⟩

theorem Informed.log (h : s.Informed Q) (level : Level) (message : String) :
    (s.log level message).Informed Q := h.unshown (log_unshown s level message)

theorem Informed.setState (h : s.Informed Q) (x : RunState) : (s.setState x).Informed Q :=
  h.unshown (setState_unshown s x)

theorem Informed.emitStatus (h : s.Informed Q) (hs : s'.settings = s.settings)
    (hc : s'.client = s.client) : s'.emitStatus.Informed Q := h.shown rfl hs hc

theorem Informed.push (h : s.Informed Q) (node : NodeId) (text : String) (work : Work τ) :
    (s.push node text work).Informed Q := by
  rw [push_eq]
  exact h.shown rfl rfl rfl

theorem Informed.pop (h : s.Informed Q) (f : Frame τ) (r : FrameResult) : (s.pop f r).Informed Q := by
  rw [pop_eq]
  exact h.shown rfl rfl rfl

theorem Informed.halt (h : s.Informed Q) : s.halt.Informed Q := by
  have hc : (s.clear .stopped).Informed Q :=
    clear_of_pop (R := fun s s' => s.Informed Q → s'.Informed Q) (fun _ => id)
      (fun _ _ _ h h' hs => h' (h hs)) (fun _ f hs => hs.pop f .stopped) s h
  rw [halt_eq]
  exact hc.unshown ⟨rfl, rfl, rfl, rfl⟩

/-! Control calls. -/

theorem build_unshown (b : Bridge τ) (s : Session σ τ) (name : Value) (body : Body)
    (count : Option Int) : Unshown s (s.build b name body count).2 := by
  unfold build
  split
  · have hi : Unshown s (s.ignoreCount name count) := by
      cases count
      · exact .refl s
      · exact log_unshown s _ _
    unfold buildScript
    dsimp only
    split
    · exact hi.trans ⟨rfl, rfl, rfl, rfl⟩
    · exact hi.trans ⟨rfl, rfl, rfl, rfl⟩
  · unfold buildNative
    split
    · exact .refl s
    · exact log_unshown s _ _
    · split
      · exact log_unshown s _ _
      · exact .refl s

theorem Informed.run (h : s.Informed Q) (b : Bridge τ) (node : NodeId) (count : Option Int) :
    (s.run b node count).2.Informed Q := by
  unfold Session.run
  split
  · exact h.log _ _
  · dsimp only
    split
    · exact h.log _ _
    · next body _ =>
      have hb := h.unshown (build_unshown b s (s.tree.name node) body count)
      split
      · next hr => rw [hr] at hb; exact hb
      · next hr => rw [hr] at hb; exact hb
      · next hr =>
        rw [hr] at hb
        split
        · exact hb.log _ _
        · exact hb.push node _ _

theorem Informed.runByName (h : s.Informed Q) (b : Bridge τ) (name : Value) (count : Option Int) :
    (s.runByName b name count).2.Informed Q := by
  unfold Session.runByName
  split
  · exact h
  · exact h.run b _ count
  · exact h

theorem Informed.runNested (h : s.Informed Q) (b : Bridge τ) (name : Value) :
    (s.runNested b name).2.Informed Q := by
  unfold Session.runNested
  split
  · exact h
  · have hr := h.runByName b name none
    split <;> next he => rw [he] at hr; exact hr

theorem Informed.markTop (h : s.Informed Q) (p q : Frame τ → Bool) :
    (s.markTop fun f => { f with pauseAtLoop := p f, stopAtLoop := q f }).Informed Q := by
  unfold Session.markTop
  split
  · exact h.unshown (modify_unshown s _ fun _ _ _ => ⟨rfl, rfl⟩)
  · exact h

theorem Informed.pause (h : s.Informed Q) (atLoop : Bool) : (s.pause atLoop).Informed Q := by
  unfold Session.pause
  split
  · unfold pauseAtLoop
    split
    · exact h
    · exact (h.markTop (fun _ => true) (·.stopAtLoop)).log _ _
  · unfold pauseNow
    split
    · exact (h.setState .paused).log _ _
    · split
      · exact h.unshown ⟨rfl, rfl, rfl, rfl⟩
      · exact h

theorem Informed.resume (h : s.Informed Q) : s.resume.Informed Q := by
  unfold Session.resume
  split
  · exact (h.setState .running).log _ _
  · split
    · exact h.unshown ⟨rfl, rfl, rfl, rfl⟩
    · exact h

theorem Informed.stop (h : s.Informed Q) (atLoop : Bool) : (s.stop atLoop).Informed Q := by
  unfold Session.stop
  split
  · exact h
  · split
    · exact (h.markTop (·.pauseAtLoop) fun _ => true).log _ _
    · exact h.halt.log _ _

theorem Informed.control (h : s.Informed Q) (b : Bridge τ) (c : Control) : (c.apply b s).Informed Q := by
  have h1 : (s.record (.calling c)).Informed Q := h.unshown ⟨rfl, rfl, rfl, rfl⟩
  have h2 : (c.perform b (s.record (.calling c))).2.Informed Q := by
    cases c with
    | run node count => exact h1.run b node count
    | runByName name count => exact h1.runByName b (.text name) count
    | pause atLoop => exact h1.pause atLoop
    | resume => exact h1.resume
    | stop atLoop => exact h1.stop atLoop
  exact h2.unshown ⟨rfl, rfl, rfl, rfl⟩

end Session

end Macros
