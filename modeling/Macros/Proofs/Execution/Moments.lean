import Macros.Execution.Line

/-!
What a routine does while it runs: each effect, with the world that it takes place in. What a computation
does is what its parts do, one after the other, up to a part that fails.
-/

namespace Macros

namespace Effect

/-- Does the client have to answer? -/
def isCall : Effect → Bool
  | ask _ | condition => true
  | _ => false

def isSleep : Effect → Bool
  | sleep _ => true
  | _ => false

def isLog : Effect → Bool
  | log _ _ => true
  | _ => false

theorem isCall_of_isLog {e : Effect} (h : e.isLog) : e.isCall = false := by
  cases e <;> first | rfl | simp [isLog] at h

theorem isSleep_of_isLog {e : Effect} (h : e.isLog) : e.isSleep = false := by
  cases e <;> first | rfl | simp [isLog] at h

theorem exists_of_isSleep {e : Effect} (h : e.isSleep) : ∃ t, e = sleep t := by
  cases e <;> first | exact ⟨_, rfl⟩ | simp [isSleep] at h

end Effect

/-- An effect, and the world that it takes place in. -/
structure Moment (W : Type) where
  effect : Effect
  world : W

/-- An effect, and the answer to it. -/
structure Effect.Reply where
  effect : Effect
  answer : effect.Answer

variable {α β W : Type} {answer : (e : Effect) → W → e.Answer × W}

def Moment.reply (answer : (e : Effect) → W → e.Answer × W) (m : Moment W) : Effect.Reply :=
  ⟨m.effect, (answer m.effect m.world).1⟩

theorem Moment.reply_eq {e : Effect} {w : W} {x : e.Answer} (h : (answer e w).1 = x) :
    (⟨e, w⟩ : Moment W).reply answer = ⟨e, x⟩ := h ▸ rfl

namespace Routine

/-- What a routine does when it runs. -/
def moments (answer : (e : Effect) → W → e.Answer × W) : Routine α → W → List (Moment W)
  | done _, _ => []
  | perform e next, w => ⟨e, w⟩ :: moments answer (next (answer e w).1) (answer e w).2

theorem moments_bind (r : Routine α) (f : α → Routine β) (w : W) :
    (r.bind f).moments answer w =
      r.moments answer w ++ (f (r.run answer w).1).moments answer (r.run answer w).2 := by
  induction r generalizing w with
  | done a => rfl
  | perform e next ih => exact congrArg _ (ih _ _)

end Routine

namespace Act

/-- What a computation comes to. -/
def result (answer : (e : Effect) → W → e.Answer × W) (m : Act α) (w : W) : Except Fault α :=
  (m.run.run answer w).1

/-- What a computation does, with the answers it gets. -/
def replies (answer : (e : Effect) → W → e.Answer × W) (m : Act α) (w : W) : List Effect.Reply :=
  (m.run.moments answer w).map (·.reply answer)

/-- A computation does `ms`, comes to `x` and leaves the world `w'`. -/
structure Runs (answer : (e : Effect) → W → e.Answer × W) (m : Act α) (w : W)
    (ms : List (Moment W)) (x : Except Fault α) (w' : W) : Prop where
  result : m.run.run answer w = (x, w')
  moments : m.run.moments answer w = ms

namespace Runs

variable {m : Act α} {f : α → Act β} {w w' w'' : W} {ms ns : List (Moment W)} {x : Except Fault α}
  {y : Except Fault β} {a : α} {e : Fault}

theorem exists_run (answer : (e : Effect) → W → e.Answer × W) (m : Act α) (w : W) :
    ∃ ms x w', m.Runs answer w ms x w' := ⟨_, _, _, rfl, rfl⟩

theorem result_eq (h : m.Runs answer w ms x w') : m.result answer w = x := congrArg Prod.fst h.result

theorem replies_eq (h : m.Runs answer w ms x w') : m.replies answer w = ms.map (·.reply answer) :=
  congrArg (List.map _) h.moments

/-- There is one run from a world. -/
theorem unique (h : m.Runs answer w ms x w') {x' : Except Fault α} (h' : m.Runs answer w ns x' w'') :
    ns = ms ∧ x' = x ∧ w'' = w' := by
  obtain ⟨hr, rfl⟩ := h
  obtain ⟨hr', rfl⟩ := h'
  obtain ⟨rfl, rfl⟩ := Prod.mk.inj (hr.symm.trans hr')
  exact ⟨rfl, rfl, rfl⟩

theorem done (x : Except Fault α) (w : W) : (ofExcept x).Runs answer w [] x w := ⟨rfl, rfl⟩

theorem pure (a : α) (w : W) : (Pure.pure a : Act α).Runs answer w [] (.ok a) w := ⟨rfl, rfl⟩

theorem throw (e : Fault) (w : W) : (MonadExcept.throw e : Act α).Runs answer w [] (.error e) w :=
  ⟨rfl, rfl⟩

/-- An effect that cannot fail. -/
theorem lift (e : Effect) (w : W) :
    Act.Runs answer (ExceptT.lift (Routine.effect e)) w [⟨e, w⟩] (.ok (answer e w).1)
      (answer e w).2 := ⟨rfl, rfl⟩

theorem ask (r : Request) (w : W) :
    (Act.ask r).Runs answer w [⟨.ask r, w⟩] (answer (.ask r) w).1 (answer (.ask r) w).2 := ⟨rfl, rfl⟩

theorem ask_eq {r : Request} {x : Except Fault Bool} (h : (answer (.ask r) w).1 = x) :
    (Act.ask r).Runs answer w [⟨.ask r, w⟩] x (answer (.ask r) w).2 := h ▸ ask r w

theorem stopped_eq {b : Bool} (h : (answer .stopped w).1 = b) :
    Act.stopped.Runs answer w [⟨.stopped, w⟩] (.ok b) (answer .stopped w).2 := h ▸ lift .stopped w

theorem sleep (t : Binary64) (w : W) :
    (Act.sleep t).Runs answer w [⟨.sleep t, w⟩] (.ok ()) (answer (.sleep t) w).2 := lift (.sleep t) w

theorem condition (w : W) :
    Act.condition.Runs answer w [⟨.condition, w⟩] (answer .condition w).1 (answer .condition w).2 :=
  ⟨rfl, rfl⟩

theorem bind (h : m.Runs answer w ms (.ok a) w') (hf : (f a).Runs answer w' ns y w'') :
    (m >>= f).Runs answer w (ms ++ ns) y w'' := by
  obtain ⟨hr, rfl⟩ := h
  obtain ⟨hr', rfl⟩ := hf
  constructor
  · show (m.run.bind (ExceptT.bindCont f)).run answer w = _
    rw [Routine.run_bind, hr]
    exact hr'
  · show (m.run.bind (ExceptT.bindCont f)).moments answer w = _
    rw [Routine.moments_bind, hr]
    rfl

theorem bind_error (h : m.Runs answer w ms (.error e) w') :
    (m >>= f).Runs answer w ms (.error e) w' := by
  obtain ⟨hr, rfl⟩ := h
  constructor
  · show (m.run.bind (ExceptT.bindCont f)).run answer w = _
    rw [Routine.run_bind, hr]
    rfl
  · show (m.run.bind (ExceptT.bindCont f)).moments answer w = _
    rw [Routine.moments_bind, hr]
    exact List.append_nil _

theorem tryCatch {f : Fault → Act α} (h : m.Runs answer w ms (.error e) w')
    (hf : (f e).Runs answer w' ns x w'') :
    (MonadExcept.tryCatch m f).Runs answer w (ms ++ ns) x w'' := by
  obtain ⟨hr, rfl⟩ := h
  obtain ⟨hr', rfl⟩ := hf
  constructor
  · refine (Routine.run_bind _ m.run _ w).trans ?_
    rw [hr]
    exact hr'
  · refine (Routine.moments_bind m.run _ w).trans ?_
    rw [hr]
    rfl

theorem tryCatch_ok {f : Fault → Act α} (h : m.Runs answer w ms (.ok a) w') :
    (MonadExcept.tryCatch m f).Runs answer w ms (.ok a) w' := by
  obtain ⟨hr, rfl⟩ := h
  constructor
  · refine (Routine.run_bind _ m.run _ w).trans ?_
    rw [hr]
    rfl
  · refine (Routine.moments_bind m.run _ w).trans ?_
    rw [hr]
    exact List.append_nil _

/-- What a computation comes to whose first part does `ms`. -/
theorem cases_bind (h : (m >>= f).Runs answer w ms y w'') :
    (∃ ms₁ a w' ms₂, m.Runs answer w ms₁ (.ok a) w' ∧ (f a).Runs answer w' ms₂ y w'' ∧ ms = ms₁ ++ ms₂) ∨
      ∃ e, m.Runs answer w ms (.error e) w'' ∧ y = .error e := by
  obtain ⟨ms₁, x, w', hm⟩ := exists_run answer m w
  cases x with
  | ok a =>
    obtain ⟨ms₂, z, v, hf⟩ := exists_run answer (f a) w'
    obtain ⟨rfl, rfl, rfl⟩ := (bind hm hf).unique h
    exact .inl ⟨ms₁, a, w', ms₂, hm, hf, rfl⟩
  | error e =>
    obtain ⟨rfl, rfl, rfl⟩ := (bind_error (f := f) hm).unique h
    exact .inr ⟨e, hm, rfl⟩

end Runs

end Act

/-! A world for lines to be tried in. -/

/-- The answers to the questions to come are laid down. -/
structure Trial where
  answers : List Bool
  condition : String
  /-- A stop comes in with the last of so many sleeps. -/
  stopIn : Option Nat
  logged : List (Level × Value)

namespace Trial

/-- Once no answer is left, all are yes. -/
def respond : (e : Effect) → Trial → e.Answer × Trial
  | .ask _, w => (.ok (w.answers.headD true), { w with answers := w.answers.tail })
  | .condition, w => (.ok w.condition, w)
  | .sleep _, w => ((), { w with stopIn := w.stopIn.map (· - 1) })
  | .stopped, w => (w.stopIn == some 0, w)
  | .draw, w => (.zero, w)
  | .start _, w => (.ok (), w)
  | .log level message, w => ((), { w with logged := (level, message) :: w.logged })

/-- An item is used, unless the condition is poor. -/
def item : Instruction where
  command := "item"
  rawArgs := "Hi-Elixir"
  args := .text "Hi-Elixir"
  modifiers := [("condition", .tuple [.text "!poor"])]
  text := "/item Hi-Elixir <condition.!poor>"
  line := 1

/-- Whatever is asked for is there. -/
def stocked : Trial := ⟨[], "Normal", none, []⟩

/-- Worlds in which all but the reports is the same. -/
def Alike (w w' : Trial) : Prop := ∃ logged, w' = { w with logged := logged }

end Trial

end Macros
