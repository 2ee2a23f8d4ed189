import Macros.Proofs.Execution.Command
import Macros.Proofs.Scheduler.Calls

/-!
Sessions that agree in everything but their clients and what lines say about themselves. Control calls
look at neither, so sessions that agree still do after the same calls. And all that a line does to a
session, if it starts no macro, is what the control calls do that come in meanwhile.
-/

namespace Macros

/-- What a line says about itself: log messages, that it was handed over, and what it came to. -/
def Event.isAccount : Event → Bool
  | log _ _ | handed _ _ | settled _ _ _ => true
  | _ => false

/-- A journal without what lines say about themselves. -/
def Journal.apart (es : List Event) : List Event := es.filter (!·.isAccount)

namespace Session

open Journal

variable {σ τ : Type} {o : Oracle σ τ} {b : Bridge τ} {s s' s'' : Session σ τ}

/-- The sessions are the same apart from the client and the accounts of lines in the journal. -/
def Agrees (s s' : Session σ τ) : Prop :=
  ∃ x es, apart es = apart s.journal ∧ s' = { s with client := x, journal := es }

namespace Agrees

theorem refl (s : Session σ τ) : Agrees s s := ⟨s.client, s.journal, rfl, rfl⟩

theorem trans (h : Agrees s s') (h' : Agrees s' s'') : Agrees s s'' := by
  obtain ⟨x, es, he, rfl⟩ := h
  obtain ⟨x', es', he', rfl⟩ := h'
  exact ⟨x', es', he'.trans he, rfl⟩

theorem account (s : Session σ τ) {e : Event} (he : e.isAccount) : Agrees s (s.record e) :=
  ⟨s.client, e :: s.journal, by simp [apart, he], rfl⟩

theorem client (s : Session σ τ) (x : σ) : Agrees s { s with client := x } :=
  ⟨x, s.journal, rfl, rfl⟩

/-- The same reports are made, and the same is done to the other fields. -/
theorem apart_append {p q : List Event} (h : apart p = apart q) (es : List Event) :
    apart (es ++ p) = apart (es ++ q) := by
  simp only [apart, List.filter_append] at h ⊢
  rw [h]

theorem record (h : Agrees s s') (e : Event) : Agrees (s.record e) (s'.record e) := by
  obtain ⟨x, es, he, rfl⟩ := h
  exact ⟨x, e :: es, apart_append he [e], rfl⟩

theorem log (h : Agrees s s') (level : Level) (message : String) :
    Agrees (s.log level message) (s'.log level message) :=
  h.record _

theorem setState (h : Agrees s s') (y : RunState) : Agrees (s.setState y) (s'.setState y) := by
  obtain ⟨x, es, he, rfl⟩ := h
  rw [setState_eq, setState_eq]
  exact ⟨x, s.stateNews y ++ es, apart_append he _, rfl⟩

theorem prior (h : Agrees s s') (y : RunState) :
    Agrees { s with prior := y } { s' with prior := y } := by
  obtain ⟨x, es, he, rfl⟩ := h
  exact ⟨x, es, he, rfl⟩

theorem push (h : Agrees s s') (node : NodeId) (text : String) (work : Work τ) :
    Agrees (s.push node text work) (s'.push node text work) := by
  obtain ⟨x, es, he, rfl⟩ := h
  rw [push_eq, push_eq]
  exact ⟨x, s.pushNews (s.newFrame node text work) ++ es, apart_append he _, rfl⟩

theorem pop (h : Agrees s s') (f : Frame τ) (r : FrameResult) :
    Agrees (s.pop f r) (s'.pop f r) := by
  obtain ⟨x, es, he, rfl⟩ := h
  rw [pop_eq, pop_eq]
  exact ⟨x, s.popNews f r ++ es, apart_append he _, rfl⟩

theorem pops (h : Agrees s s') (fs : List (Frame τ)) (r : FrameResult) :
    Agrees (fs.foldl (fun s f => s.pop f r) s) (fs.foldl (fun s f => s.pop f r) s') := by
  induction fs generalizing s s' with
  | nil => exact h
  | cons f fs ih => exact ih (h.pop f r)

theorem stack (h : Agrees s s') : s'.stack = s.stack := by
  obtain ⟨x, es, -, rfl⟩ := h
  rfl

theorem halt (h : Agrees s s') : Agrees s.halt s'.halt := by
  obtain ⟨x, es, he, rfl⟩ := h
  have h1 : Agrees { s with stopEvent := true }
      { s with stopEvent := true, client := x, journal := es } := ⟨x, es, he, rfl⟩
  exact h1.pops s.stack.reverse .stopped

theorem markTop (h : Agrees s s') (g : Frame τ → Frame τ) :
    Agrees (s.markTop g) (s'.markTop g) := by
  obtain ⟨x, es, he, rfl⟩ := h
  have ht : { s with client := x, journal := es }.top? = s.top? := rfl
  unfold Session.markTop
  rw [ht]
  cases s.top? with
  | none => exact ⟨x, es, he, rfl⟩
  | some f => exact ⟨x, es, he, rfl⟩

theorem pause (h : Agrees s s') (atLoop : Bool) : Agrees (s.pause atLoop) (s'.pause atLoop) := by
  obtain ⟨x, es, he, rfl⟩ := id h
  unfold Session.pause pauseAtLoop pauseNow
  dsimp only
  split
  · split
    · exact h
    · exact (h.markTop _).log _ _
  · split
    · exact (h.setState _).log _ _
    · split
      · exact h.prior _
      · exact h

theorem resume (h : Agrees s s') : Agrees s.resume s'.resume := by
  obtain ⟨x, es, he, rfl⟩ := id h
  unfold Session.resume
  dsimp only
  split
  · exact (h.setState _).log _ _
  · split
    · exact h.prior _
    · exact h

theorem stop (h : Agrees s s') (atLoop : Bool) : Agrees (s.stop atLoop) (s'.stop atLoop) := by
  obtain ⟨x, es, he, rfl⟩ := id h
  unfold Session.stop
  dsimp only
  split
  · exact h
  · split
    · exact (h.markTop _).log _ _
    · exact h.halt.log _ _

/-! Starting a macro comes to the same as well. -/

theorem buildNative (h : Agrees s s') (name : Value) (body : Body) (n : Option Int) :
    (s'.buildNative name body n).1 = (s.buildNative name body n).1 ∧
      Agrees (s.buildNative name body n).2 (s'.buildNative name body n).2 := by
  have ht : s'.runText body n = s.runText body n ∧ s'.registry = s.registry := by
    obtain ⟨x, es, -, rfl⟩ := h
    exact ⟨rfl, rfl⟩
  unfold Session.buildNative
  rw [ht.1, ht.2]
  split
  · exact ⟨rfl, h⟩
  · exact ⟨rfl, h.log _ _⟩
  · split
    · exact ⟨rfl, h.log _ _⟩
    · exact ⟨rfl, h⟩

theorem buildScript (h : Agrees s s') (name : Value) (body : Body) (n : Option Int) :
    (s'.buildScript b name body n).1 = (s.buildScript b name body n).1 ∧
      Agrees (s.buildScript b name body n).2 (s'.buildScript b name body n).2 := by
  have h1 : Agrees (s.ignoreCount name n) (s'.ignoreCount name n) := by
    cases n with
    | none => exact h
    | some n => exact h.log _ _
  have ht : (s'.ignoreCount name n).settings = (s.ignoreCount name n).settings := by
    obtain ⟨x, es, -, ht⟩ := h1
    rw [ht]
  unfold Session.buildScript
  dsimp only
  rw [ht]
  split
  · exact ⟨rfl, (h1.record _).log _ _⟩
  · exact ⟨rfl, h1.record _⟩

theorem build (h : Agrees s s') (name : Value) (body : Body) (n : Option Int) :
    (s'.build b name body n).1 = (s.build b name body n).1 ∧
      Agrees (s.build b name body n).2 (s'.build b name body n).2 := by
  unfold Session.build
  split
  · obtain ⟨h1, h2⟩ := h.buildScript (b := b) name body n
    exact ⟨congrArg Except.ok h1, h2⟩
  · exact h.buildNative name body n

theorem run (h : Agrees s s') (node : NodeId) (n : Option Int) :
    (s'.run b node n).1 = (s.run b node n).1 ∧ Agrees (s.run b node n).2 (s'.run b node n).2 := by
  have ht : s'.closed = s.closed ∧ s'.tree = s.tree := by
    obtain ⟨x, es, -, rfl⟩ := h
    exact ⟨rfl, rfl⟩
  unfold Session.run
  rw [ht.1, ht.2]
  split
  · exact ⟨rfl, h.log _ _⟩
  · dsimp only
    cases s.tree.body? node with
    | none => exact ⟨rfl, h.log _ _⟩
    | some body =>
      obtain ⟨h1, h2⟩ := h.build (b := b) (s.tree.name node) body n
      revert h1 h2
      dsimp only
      generalize s.build b (s.tree.name node) body n = p
      generalize s'.build b (s.tree.name node) body n = p'
      obtain ⟨x, t⟩ := p
      obtain ⟨x', t'⟩ := p'
      rintro rfl h2
      dsimp only
      rcases x' with f | _ | ⟨text, work⟩
      · exact ⟨rfl, h2⟩
      · exact ⟨rfl, h2⟩
      · dsimp only
        rw [show t'.stack = t.stack from h2.stack]
        split
        · exact ⟨rfl, h2.log _ _⟩
        · exact ⟨rfl, h2.push _ _ _⟩

theorem runByName (h : Agrees s s') (name : Value) (n : Option Int) :
    (s'.runByName b name n).1 = (s.runByName b name n).1 ∧
      Agrees (s.runByName b name n).2 (s'.runByName b name n).2 := by
  have ht : s'.tree = s.tree := by
    obtain ⟨x, es, -, rfl⟩ := h
    rfl
  unfold Session.runByName
  rw [ht]
  split
  · exact ⟨rfl, h⟩
  · exact h.run _ n
  · exact ⟨rfl, h⟩

theorem perform (h : Agrees s s') (c : Control) :
    (c.perform b s').1 = (c.perform b s).1 ∧ Agrees (c.perform b s).2 (c.perform b s').2 := by
  cases c with
  | run node n =>
    obtain ⟨h1, h2⟩ := h.run (b := b) node n
    exact ⟨congrArg started h1, h2⟩
  | runByName name n =>
    obtain ⟨h1, h2⟩ := h.runByName (b := b) (.text name) n
    exact ⟨congrArg started h1, h2⟩
  | pause atNextLoop => exact ⟨rfl, h.pause atNextLoop⟩
  | resume => exact ⟨rfl, h.resume⟩
  | stop atNextLoop => exact ⟨rfl, h.stop atNextLoop⟩

theorem apply (h : Agrees s s') (c : Control) : Agrees (c.apply b s) (c.apply b s') := by
  obtain ⟨h1, h2⟩ := (h.record (.calling c)).perform (b := b) c
  unfold Control.apply
  dsimp only
  rw [h1]
  exact h2.record _

/-- Sessions that agree still do after the same control calls. -/
theorem land (h : Agrees s s') (cs : List Control) : Agrees (s.land b cs) (s'.land b cs) := by
  induction cs generalizing s s' with
  | nil => exact h
  | cons c cs ih => exact ih (h.apply c)

end Agrees

/-! A line that starts no macro only lets control calls in. -/

/-- The control calls that have come in are all that happened, apart from what a line says about
itself. -/
def LeftByCalls (b : Bridge τ) (s s' : Session σ τ) : Prop :=
  ∃ es, s'.journal = es ++ s.journal ∧ Agrees (s.land b (calls es)) s'

theorem LeftByCalls.of_agrees (es : List Event) (hj : s'.journal = es ++ s.journal)
    (hc : ∀ e ∈ es, ¬e.isControl) (h : Agrees s s') : LeftByCalls b s s' :=
  ⟨es, hj, by rw [calls_of_quiet hc]; exact h⟩

theorem LeftByCalls.refl (s : Session σ τ) : LeftByCalls b s s :=
  .of_agrees [] rfl (by simp) (.refl s)

theorem LeftByCalls.trans (h : LeftByCalls b s s') (h' : LeftByCalls b s' s'') :
    LeftByCalls b s s'' := by
  obtain ⟨es, hj, ha⟩ := h
  obtain ⟨es', hj', ha'⟩ := h'
  refine ⟨es' ++ es, by rw [hj', hj, List.append_assoc], ?_⟩
  have hl : s.land b (calls (es' ++ es)) = (s.land b (calls es)).land b (calls es') := by
    rw [calls_append, land, List.foldl_append]
    rfl
  rw [hl]
  exact (ha.land _).trans ha'

theorem account_leftByCalls (s : Session σ τ) {e : Event} (he : e.isAccount) :
    LeftByCalls b s (s.record e) := by
  refine .of_agrees [e] rfl (List.forall_mem_singleton.2 ?_) (.account s he)
  cases e <;> first | exact Bool.false_ne_true | cases he

theorem land_leftByCalls (s : Session σ τ) (cs : List Control) : LeftByCalls b s (s.land b cs) := by
  induction cs generalizing s with
  | nil => exact .refl s
  | cons c cs ih =>
    obtain ⟨es, hj, hc⟩ := apply_calls b s c
    have h1 : LeftByCalls b s (c.apply b s) := ⟨es, hj, by rw [hc]; exact .refl _⟩
    exact h1.trans (ih _)

theorem respond_leftByCalls (k : Call) (s : Session σ τ) : LeftByCalls b s (o.respond b k s).2 := by
  have h1 : LeftByCalls b s { s with client := (o k s).2.2 } :=
    .of_agrees [] rfl (by simp) (.client s _)
  exact h1.trans (land_leftByCalls _ (o k s).2.1)

theorem answer_leftByCalls {e : Effect} (he : e.startsMacro = false) (s : Session σ τ) :
    LeftByCalls b s (answer (.ofOracle b o) b e s).2 := by
  cases e with
  | ask r => exact respond_leftByCalls (.ask r) s
  | condition => exact respond_leftByCalls .condition s
  | sleep t => exact respond_leftByCalls (.sleep t) s
  | stopped => exact .refl s
  | draw => exact respond_leftByCalls .draw s
  | start name => simp [Effect.startsMacro] at he
  | log level message => exact account_leftByCalls s rfl

theorem routine_leftByCalls {α : Type} {r : Routine α} (h : r.Startless) (s : Session σ τ) :
    LeftByCalls b s (r.run (answer (.ofOracle b o) b) s).2 := by
  induction r generalizing s with
  | done a => exact .refl s
  | perform e next ih => exact (answer_leftByCalls h.1 s).trans (ih _ (h.2 _) _)

/-- A line that starts no macro leaves the session as the control calls do that come in. -/
theorem perform_leftByCalls (s : Session σ τ) (f : Frame τ) {i : Instruction}
    (hc : i.command ≠ "runmacro") : LeftByCalls b s (s.perform (.ofOracle b o) b f i).2 := by
  have h1 := account_leftByCalls (b := b) s (e := .handed f.id i) rfl
  have h2 := h1.trans (routine_leftByCalls (o := o)
    (Execution.execute_determined (s.record (.handed f.id i)).settings hc).startless
    (s.record (.handed f.id i)))
  unfold Session.perform
  dsimp only
  split
  · next hr => rw [hr] at h2; exact h2.trans (account_leftByCalls _ rfl)
  · next hr => rw [hr] at h2; exact h2.trans (account_leftByCalls _ rfl)
  · next hr => rw [hr] at h2; exact h2
  · next hr =>
    rw [hr] at h2
    exact (h2.trans (account_leftByCalls _ rfl)).trans (account_leftByCalls _ rfl)

end Session

end Macros
