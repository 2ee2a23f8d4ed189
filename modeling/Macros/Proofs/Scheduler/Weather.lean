import Macros.Proofs.Scheduler.Steady

/-!
A client whose answers to a line depend only on the lines that came to an outcome before, and the weather
that it runs in: when it is away, which pauses come in, and what chance decides. The client keeps a diary,
so that it can tell how often it was asked in an attempt at a line.
-/

namespace Macros

open Session

/-- A line that came to an outcome. -/
structure Verdict where
  frame : Nat
  line : Instruction
  outcome : Outcome

def Event.verdict? : Event → Option Verdict
  | settled id i x => some ⟨id, i, x⟩
  | _ => none

def Event.handed? : Event → Option (Nat × Instruction)
  | handed id i => some (id, i)
  | _ => none

/-- A line changes hands. -/
def Event.isLine : Event → Bool
  | handed _ _ | settled _ _ _ => true
  | _ => false

/-- Where a question of a line stands: the lines that came to an outcome before, the line with its frame,
and how often this attempt at it has asked so far. -/
structure Attempt where
  past : List Verdict
  line : Option (Nat × Instruction)
  asked : Nat

/-- The answers of a client to the questions of a line. -/
structure World where
  ask : Attempt → Request → Except Fault Bool
  condition : Attempt → Except Fault String
  ask_answered : ∀ a r, Answered (ask a r)
  condition_answered : ∀ a, Answered (condition a)

/-- What a client remembers: how often it was called, and how often the attempt asked that asked last; the
attempts are numbered. -/
structure Diary where
  calls : Nat
  attempt : Nat
  asked : Nat

/-- The control calls of a schedule. -/
inductive Steering
  | pause (atNextLoop : Bool)
  | resume

def Steering.control : Steering → Control
  | pause atNextLoop => .pause atNextLoop
  | resume => .resume

/-- What a run is exposed to, whatever that depends on. -/
structure Weather (τ : Type) where
  ready : Session Diary τ → Bool
  /-- Is a question not answered, since the client is away? -/
  outage : Session Diary τ → Option String
  draw : Session Diary τ → Binary64
  /-- The control calls that come in during a call. -/
  landing : Call → Session Diary τ → List Steering

/-- The client is always there and nothing comes in. -/
def Weather.calm {τ : Type} (draw : Session Diary τ → Binary64) : Weather τ where
  ready _ := true
  outage _ := none
  draw := draw
  landing _ _ := []

def Call.isQuestion : Call → Bool
  | ask _ | condition => true
  | _ => false

namespace Session

section

variable {σ τ : Type}

/-- The lines that came to an outcome, in order. -/
def past (s : Session σ τ) : List Verdict := (s.journal.filterMap Event.verdict?).reverse

/-- The lines that were handed over, the latest first; one that was interrupted stands there again. -/
def attempts (s : Session σ τ) : List (Nat × Instruction) := s.journal.filterMap Event.handed?

end

variable {τ : Type}

/-- How often the latest attempt has asked. -/
def asked (s : Session Diary τ) : Nat :=
  if s.client.attempt = s.attempts.length then s.client.asked else 0

def attempt (s : Session Diary τ) : Attempt := ⟨s.past, s.attempts.head?, s.asked⟩

/-- The diary after a call. -/
def noted (s : Session Diary τ) (k : Call) : Diary :=
  if k.isQuestion then ⟨s.client.calls + 1, s.attempts.length, s.asked + 1⟩
  else { s.client with calls := s.client.calls + 1 }

end Session

/-- An answer, unless the client is away. -/
def Weather.interrupt {τ α : Type} (ω : Weather τ) (s : Session Diary τ) (x : Except Fault α) :
    Except Fault α :=
  match ω.outage s with
  | some m => .error (.unavailable m)
  | none => x

def World.answer {τ : Type} (W : World) (ω : Weather τ) (s : Session Diary τ) : (k : Call) → k.Answer
  | .ready => ω.ready s
  | .ask r => ω.interrupt s (W.ask s.attempt r)
  | .condition => ω.interrupt s (W.condition s.attempt)
  | .sleep _ => ()
  | .draw => ω.draw s
  | .hostCall => ()

/-- The client in some weather. -/
def World.oracle {τ : Type} (W : World) (ω : Weather τ) : Oracle Diary τ := fun k s =>
  (W.answer ω s k, (ω.landing k s).map Steering.control, s.noted k)

abbrev World.client {τ : Type} (W : World) (ω : Weather τ) (b : Bridge τ) : Client Diary τ :=
  .ofOracle b (W.oracle ω)

theorem World.steady {τ : Type} (W : World) (draw : Session Diary τ → Binary64) :
    (W.oracle (.calm draw)).Steady where
  ready _ := rfl
  ask r s := W.ask_answered s.attempt r
  condition s := W.condition_answered s.attempt
  still _ _ := rfl

/-- The frame without its mark for a pause. -/
def Frame.bare {τ : Type} (f : Frame τ) : Frame τ := { f with pauseAtLoop := false }

/-- What the course of a run hangs on. -/
structure Core (τ : Type) where
  tree : Tree
  settings : Settings
  registry : Registry
  closed : Bool
  hasRunner : Bool
  nextId : Nat
  frames : List (Frame τ)
  past : List Verdict

namespace Session

variable {σ τ : Type}

def core (s : Session σ τ) : Core τ :=
  ⟨s.tree, s.settings, s.registry, s.closed, s.hasRunner, s.nextId, s.stack.map Frame.bare, s.past⟩

/-- The diary knows of no attempt that is still to come. -/
def Dated (s : Session Diary τ) : Prop := s.client.attempt ≤ s.attempts.length

/-- Nothing happened that the course of a run hangs on. -/
structure Lull (s s' : Session Diary τ) : Prop where
  core : s'.core = s.core
  freshRun : s'.freshRun = s.freshRun
  stopEvent : s'.stopEvent = s.stopEvent
  attempts : s'.attempts = s.attempts
  dated : s.Dated → s'.Dated

/-- And the line at hand has asked nothing. -/
structure Hush (s s' : Session Diary τ) : Prop extends Lull s s' where
  asked : s'.asked = s.asked

variable {s s' s'' : Session Diary τ}

theorem Lull.refl (s : Session Diary τ) : Lull s s := ⟨rfl, rfl, rfl, rfl, id⟩

theorem Lull.trans (h : Lull s s') (h' : Lull s' s'') : Lull s s'' :=
  ⟨h'.core.trans h.core, h'.freshRun.trans h.freshRun, h'.stopEvent.trans h.stopEvent,
    h'.attempts.trans h.attempts, h'.dated ∘ h.dated⟩

theorem Hush.refl (s : Session Diary τ) : Hush s s := ⟨.refl s, rfl⟩

theorem Hush.trans (h : Hush s s') (h' : Hush s' s'') : Hush s s'' :=
  ⟨h.toLull.trans h'.toLull, h'.asked.trans h.asked⟩

theorem Lull.past (h : Lull s s') : s'.past = s.past := congrArg Core.past h.core

theorem Hush.attempt (h : Hush s s') : s'.attempt = s.attempt := by
  rw [Session.attempt, Session.attempt, h.past, h.attempts, h.asked]

theorem filterMap_verdict {es : List Event} (h : ∀ e ∈ es, e.isLine = false) :
    es.filterMap Event.verdict? = [] :=
  List.filterMap_eq_nil_iff.2 fun e he => by
    have := h e he
    cases e <;> first | rfl | cases this

theorem filterMap_handed {es : List Event} (h : ∀ e ∈ es, e.isLine = false) :
    es.filterMap Event.handed? = [] :=
  List.filterMap_eq_nil_iff.2 fun e he => by
    have := h e he
    cases e <;> first | rfl | cases this

theorem asked_eq (hc : s'.client = s.client) (ha : s'.attempts = s.attempts) : s'.asked = s.asked := by
  unfold asked
  rw [hc, ha]

/-- The run state and the marks change, and observers are told of it. -/
theorem Hush.update (s : Session Diary τ) (x y : RunState) {fs : List (Frame τ)} {es : List Event}
    (hf : fs.map Frame.bare = s.stack.map Frame.bare) (he : ∀ e ∈ es, e.isLine = false) :
    Hush s { s with state := x, prior := y, stack := fs, journal := es ++ s.journal } := by
  have hp : ({ s with state := x, prior := y, stack := fs, journal := es ++ s.journal } :
      Session Diary τ).past = s.past := by
    simp [past, filterMap_verdict he]
  have ha : ({ s with state := x, prior := y, stack := fs, journal := es ++ s.journal } :
      Session Diary τ).attempts = s.attempts := by
    simp [attempts, filterMap_handed he]
  refine ⟨⟨?_, rfl, rfl, ha, fun h => ?_⟩, asked_eq rfl ha⟩
  · simp only [core, hp, hf]
  · rw [Dated, ha]
    exact h

theorem Hush.record (s : Session Diary τ) {e : Event} (he : e.isLine = false) : Hush s (s.record e) :=
  .update s s.state s.prior rfl (List.forall_mem_singleton.2 he)

theorem Hush.log (s : Session Diary τ) (l : Level) (m : String) : Hush s (s.log l m) := .record s rfl

theorem Hush.emitStatus (s : Session Diary τ) : Hush s s.emitStatus := .record s rfl

theorem Hush.setState (s : Session Diary τ) (x : RunState) : Hush s (s.setState x) := by
  rw [setState_eq]
  exact .update s x s.prior rfl fun e he => by rw [stateNews_cases he]; rfl

theorem Hush.prior (s : Session Diary τ) (x : RunState) : Hush s { s with prior := x } :=
  .update s s.state x rfl (List.forall_mem_nil _)

theorem Hush.mark (s : Session Diary τ) (id : Nat) (g : Frame τ → Bool) :
    Hush s (s.modify id fun f => { f with pauseAtLoop := g f }) := by
  have hf : (s.modify id fun f => { f with pauseAtLoop := g f }).stack.map Frame.bare =
      s.stack.map Frame.bare := modify_map s id fun _ => rfl
  exact .update s s.state s.prior hf (List.forall_mem_nil _)

theorem Hush.enterNotReady (s : Session Diary τ) : Hush s s.enterNotReady := by
  unfold Session.enterNotReady
  split
  · exact .refl s
  · exact ((Hush.prior s s.state).trans (.setState _ _)).trans (.log _ _ _)

theorem Hush.leaveNotReady (s : Session Diary τ) : Hush s s.leaveNotReady :=
  (Hush.setState s _).trans (.log _ _ _)

/-! Control calls of a schedule. -/

theorem Hush.pause (s : Session Diary τ) (atNextLoop : Bool) : Hush s (s.pause atNextLoop) := by
  unfold Session.pause
  split
  · unfold Session.pauseAtLoop markTop
    split
    · exact .refl s
    · split
      · exact (Hush.mark s _ fun _ => true).trans (.log _ _ _)
      · exact .log s _ _
  · unfold pauseNow
    split
    · exact (Hush.setState s _).trans (.log _ _ _)
    · split
      · exact .prior s _
      · exact .refl s

theorem Hush.resume (s : Session Diary τ) : Hush s s.resume := by
  unfold Session.resume
  split
  · exact (Hush.setState s _).trans (.log _ _ _)
  · split
    · exact .prior s _
    · exact .refl s

theorem Hush.steer (b : Bridge τ) (c : Steering) (s : Session Diary τ) :
    Hush s (c.control.apply b s) := by
  cases c with
  | pause atNextLoop =>
    exact ((Hush.record s rfl).trans (.pause _ atNextLoop)).trans (.record _ rfl)
  | resume => exact ((Hush.record s rfl).trans (.resume _)).trans (.record _ rfl)

theorem Hush.land (b : Bridge τ) (cs : List Steering) (s : Session Diary τ) :
    Hush s (s.land b (cs.map Steering.control)) := by
  induction cs generalizing s with
  | nil => exact .refl s
  | cons c cs ih => exact (Hush.steer b c s).trans (ih _)

/-! Calls to the client. -/

variable (W : World) (ω : Weather τ) (b : Bridge τ)

theorem respond_lull (k : Call) (s : Session Diary τ) : Lull s ((W.oracle ω).respond b k s).2 := by
  have h1 : Lull s { s with client := s.noted k } := by
    refine ⟨rfl, rfl, rfl, rfl, fun h => ?_⟩
    show (s.noted k).attempt ≤ s.attempts.length
    unfold noted
    split
    · exact Nat.le_refl _
    · exact h
  exact h1.trans (Hush.land b _ _).toLull

theorem respond_asked (k : Call) (s : Session Diary τ) :
    ((W.oracle ω).respond b k s).2.asked = if k.isQuestion then s.asked + 1 else s.asked := by
  have h1 : ({ s with client := s.noted k } : Session Diary τ).asked =
      if k.isQuestion then s.asked + 1 else s.asked := by
    show (if (s.noted k).attempt = s.attempts.length then (s.noted k).asked else 0) = _
    unfold noted
    split
    · exact if_pos rfl
    · rfl
  exact (Hush.land b _ { s with client := s.noted k }).asked.trans h1

theorem Hush.respond {k : Call} (hk : k.isQuestion = false) (s : Session Diary τ) :
    Hush s ((W.oracle ω).respond b k s).2 :=
  ⟨respond_lull W ω b k s, by rw [respond_asked, hk]; rfl⟩

/-- A question counts, however it is answered. -/
theorem respond_attempt {k : Call} (hk : k.isQuestion) (s : Session Diary τ) :
    ((W.oracle ω).respond b k s).2.attempt = { s.attempt with asked := s.asked + 1 } := by
  have h := respond_lull W ω b k s
  rw [attempt, h.past, h.attempts, respond_asked, hk]
  rfl

theorem Hush.answer {e : Effect} (he : e.isIdle) (s : Session Diary τ) :
    Hush s (answer (.ofOracle b (W.oracle ω)) b e s).2 := by
  cases e with
  | sleep t => exact .respond W ω b rfl s
  | stopped => exact .refl s
  | draw => exact .respond W ω b rfl s
  | log level message => exact .record s rfl
  | ask r => simp [Effect.isIdle] at he
  | condition => simp [Effect.isIdle] at he
  | start name => simp [Effect.isIdle] at he

/-- A routine that asks nothing. -/
theorem run_lone {α : Type} {Q : α → Prop} {r : Routine α} (h : r.Lone Q) (s : Session Diary τ) :
    Q (r.run (answer (.ofOracle b (W.oracle ω)) b) s).1 ∧
      Hush s (r.run (answer (.ofOracle b (W.oracle ω)) b) s).2 := by
  induction r generalizing s with
  | done a => exact ⟨h, .refl s⟩
  | perform e next ih =>
    obtain ⟨hq, hs⟩ := ih _ (h.2 _) (answer (.ofOracle b (W.oracle ω)) b e s).2
    exact ⟨hq, (Hush.answer W ω b h.1 s).trans hs⟩

end Session

end Macros
