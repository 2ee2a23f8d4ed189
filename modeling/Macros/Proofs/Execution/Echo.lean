import Macros.Proofs.Execution.Moments

/-!
The echo tag. A line with the tag does what it does without, and comes to the same; it only reports more,
as information. Wherever a handler echoes, what follows is the same with the report and without it.
-/

namespace Macros

variable {α β W : Type}

namespace Routine

/-- The second routine reports more, and is the same otherwise. -/
inductive Echoed : Routine α → Routine α → Prop
  | done (a : α) : Echoed (done a) (done a)
  | perform (e : Effect) {next next' : e.Answer → Routine α} (h : ∀ x, Echoed (next x) (next' x)) :
    Echoed (perform e next) (perform e next')
  | note (message : Value) {r : Routine α} {next : Unit → Routine α} (h : Echoed r (next ())) :
    Echoed r (perform (.log .info message) next)

theorem Echoed.refl (r : Routine α) : Echoed r r := by
  induction r with
  | done a => exact .done a
  | perform e next ih => exact .perform e ih

theorem Echoed.bind {r r' : Routine α} {f f' : α → Routine β} (h : Echoed r r')
    (hf : ∀ a, Echoed (f a) (f' a)) : Echoed (r.bind f) (r'.bind f') := by
  induction h with
  | done a => exact hf a
  | perform e _ ih => exact .perform e ih
  | note message _ ih => exact .note message ih

end Routine

namespace Act

/-- The second computation reports more, and is the same otherwise. -/
def Echoed (m m' : Act α) : Prop := m.run.Echoed m'.run

namespace Echoed

variable {m m' : Act α}

theorem refl (m : Act α) : Echoed m m := Routine.Echoed.refl m.run

theorem bind {f f' : α → Act β} (h : Echoed m m') (hf : ∀ a, Echoed (f a) (f' a)) :
    Echoed (m >>= f) (m' >>= f') := by
  show (m.run.bind (ExceptT.bindCont f)).Echoed (m'.run.bind (ExceptT.bindCont f'))
  refine Routine.Echoed.bind h fun x => ?_
  cases x with
  | ok a => exact hf a
  | error e => exact .refl _

theorem tryCatch {f : Fault → Act α} (h : Echoed m m') :
    Echoed (MonadExcept.tryCatch m f) (MonadExcept.tryCatch m' f) :=
  Routine.Echoed.bind h fun _ => .refl _

end Echoed

end Act

namespace Instruction

/-- Two lines with the same command and argument, and the same tags but for the echo of the second. -/
structure EchoOf (i j : Instruction) : Prop where
  silent : i.has "echo" = false
  command : j.command = i.command
  args : j.args = i.args
  modifiers : ∀ name, name ≠ "echo" → j.modifier? name = i.modifier? name

end Instruction

namespace Execution

open Act

variable {i j : Instruction} {settings : Settings}

theorem echo_silent (h : i.has "echo" = false) (message : String) : echo i message = pure () := by
  rw [echo, h]
  rfl

/-- A line may report where another does not. -/
theorem echo_echoed (h : i.EchoOf j) (message message' : String) :
    Echoed (echo i message) (echo j message') := by
  rw [echo_silent h.silent, echo]
  split
  · exact .note _ (.refl _)
  · exact .refl _

theorem has_unconfirmed (h : i.EchoOf j) : j.has "unsafe" = i.has "unsafe" :=
  congrArg Option.isSome (h.modifiers "unsafe" (by decide))

theorem maxWaitOr_eq (h : i.EchoOf j) (fallback : Binary64) :
    maxWaitOr j fallback = maxWaitOr i fallback := by
  rw [maxWaitOr, h.modifiers "maxwait" (by decide)]
  rfl

theorem conditionMet_eq (h : i.EchoOf j) : conditionMet j = conditionMet i := by
  rw [conditionMet, h.modifiers "condition" (by decide)]
  rfl

theorem trailingWait_eq (h : i.EchoOf j) : trailingWait j = trailingWait i := by
  rw [trailingWait, h.modifiers "wait" (by decide)]
  rfl

theorem conclude_eq (h : i.EchoOf j) (x : Option Outcome) : conclude j x = conclude i x := by
  cases x with
  | some o => rfl
  | none => rw [conclude, trailingWait_eq h]; rfl

/-- A check that both lines make. -/
theorem check_echoed {p : Prop} [Decidable p] {kind : FailureKind} {message : String}
    {m m' : Unit → Act Unit} (h : ∀ u, Echoed (m u) (m' u)) :
    Echoed (if p then fail kind message >>= m else m ())
      (if p then fail kind message >>= m' else m' ()) := by
  split
  · exact .bind (.refl _) h
  · exact h ()

theorem runAction_echoed (h : i.EchoOf j) : Echoed (runAction settings i) (runAction settings j) := by
  unfold runAction
  rw [h.args, has_unconfirmed h]
  refine .bind (.refl _) fun budget => ?_
  rw [maxWaitOr_eq h]
  refine .bind (.refl _) fun retries => .bind (.refl _) fun attempts => ?_
  cases attempts with
  | confirmed => exact echo_echoed h _ _
  | stopped => exact .refl _
  | silent => exact .refl _

theorem runWait_echoed (h : i.EchoOf j) : Echoed (runWait i) (runWait j) := by
  unfold runWait
  rw [h.args]
  exact .bind (.refl _) fun _ => .bind (.refl _) fun _ => .bind (echo_echoed h _ _) fun _ => .refl _

theorem runMacro_echoed (h : i.EchoOf j) : Echoed (runMacro i) (runMacro j) := by
  unfold runMacro
  rw [h.args]
  exact .bind (.refl _) fun _ => echo_echoed h _ _

theorem runTarget_echoed (h : i.EchoOf j) : Echoed (runTarget i) (runTarget j) := by
  unfold runTarget
  rw [h.args, h.modifiers "index" (by decide)]
  exact .bind (.refl _) fun _ => check_echoed fun _ => echo_echoed h _ _

theorem runItem_echoed (h : i.EchoOf j) : Echoed (runItem i) (runItem j) := by
  unfold runItem
  rw [h.args]
  exact .bind (.refl _) fun _ => check_echoed fun _ => .bind (.refl _) fun _ => check_echoed fun _ =>
    .bind (.refl _) fun _ => echo_echoed h _ _

theorem runWaitAddon_echoed (h : i.EchoOf j) : Echoed (runWaitAddon i) (runWaitAddon j) := by
  unfold runWaitAddon
  rw [h.args, maxWaitOr_eq h]
  refine .bind (.refl _) fun found => ?_
  cases found with
  | stopped => exact .refl _
  | present =>
    refine .bind (.refl _) fun seen => ?_
    cases seen with
    | stopped => exact .refl _
    | present => exact echo_echoed h _ _

theorem runClick_echoed (h : i.EchoOf j) : Echoed (runClick i) (runClick j) := by
  unfold runClick
  rw [h.args]
  exact .bind (.refl _) fun _ => check_echoed fun _ => echo_echoed h _ _

theorem runSend_echoed (h : i.EchoOf j) : Echoed (runSend i) (runSend j) := by
  unfold runSend
  rw [h.args]
  exact .bind (.refl _) fun _ => echo_echoed h _ _

/-- Both lines have commands that do the same, or neither has one. -/
theorem handler_echoed (settings : Settings) (h : i.EchoOf j) :
    (handler? settings i = none ∧ handler? settings j = none) ∨
    ∃ m m', handler? settings i = some m ∧ handler? settings j = some m' ∧ Echoed m m' := by
  unfold handler?
  rw [h.command]
  split
  · exact .inr ⟨_, _, rfl, rfl, runAction_echoed h⟩
  · exact .inr ⟨_, _, rfl, rfl, runWait_echoed h⟩
  · exact .inr ⟨_, _, rfl, rfl, by rw [runEcho, runEcho, h.args]; exact .refl _⟩
  · exact .inr ⟨_, _, rfl, rfl, runMacro_echoed h⟩
  · exact .inr ⟨_, _, rfl, rfl, .refl _⟩
  · exact .inr ⟨_, _, rfl, rfl, runTarget_echoed h⟩
  · exact .inr ⟨_, _, rfl, rfl, runItem_echoed h⟩
  · exact .inr ⟨_, _, rfl, rfl, runWaitAddon_echoed h⟩
  · exact .inr ⟨_, _, rfl, rfl, runClick_echoed h⟩
  · exact .inr ⟨_, _, rfl, rfl, by
      rw [runRequire, runRequire, h.args, maxWaitOr_eq h]; exact .refl _⟩
  · exact .inr ⟨_, _, rfl, rfl, runSend_echoed h⟩
  · exact .inr ⟨_, _, rfl, rfl, by rw [runHold, runHold, h.args]; exact .refl _⟩
  · exact .inr ⟨_, _, rfl, rfl, by rw [runRelease, runRelease, h.args]; exact .refl _⟩
  · exact .inl ⟨rfl, rfl⟩

theorem execute_echoed (settings : Settings) (h : i.EchoOf j) :
    Echoed (execute settings i) (execute settings j) := by
  unfold execute
  rcases handler_echoed settings h with ⟨hi, hj⟩ | ⟨m, m', hi, hj, hm⟩
  · rw [hi, hj, h.command]
    exact .refl _
  · rw [hi, hj, conditionMet_eq h]
    refine .bind (.refl _) fun met => ?_
    split
    · exact .bind (echo_echoed h _ _) fun _ => .refl _
    · refine .bind (.tryCatch (.bind hm fun _ => .refl _)) fun x => ?_
      rw [conclude_eq h]
      exact .refl _

end Execution

/-! Runs of both. -/

/-- Replies, and further ones between them that report something as information. -/
inductive Annotated : List Effect.Reply → List Effect.Reply → Prop
  | nil : Annotated [] []
  | same (r : Effect.Reply) {rs rs' : List Effect.Reply} (h : Annotated rs rs') : Annotated (r :: rs) (r :: rs')
  | note (message : Value) {rs rs' : List Effect.Reply} (h : Annotated rs rs') :
    Annotated rs (⟨.log .info message, ()⟩ :: rs')

/-- Without what is reported, both are the same. -/
theorem Annotated.filter_isLog {rs rs' : List Effect.Reply} (h : Annotated rs rs') :
    rs'.filter (!·.effect.isLog) = rs.filter (!·.effect.isLog) := by
  induction h with
  | nil => rfl
  | same r _ ih => rw [List.filter_cons, List.filter_cons, ih]
  | note message _ ih => exact ih

/-- Worlds that differ in what was reported to them, and go on alike. -/
structure Heedless (answer : (e : Effect) → W → e.Answer × W) (R : W → W → Prop) : Prop where
  same : ∀ e w w', R w w' → (answer e w').1 = (answer e w).1 ∧ R (answer e w).2 (answer e w').2
  note : ∀ message w w', R w w' → R w (answer (.log .info message) w').2

theorem Routine.Echoed.runs {answer : (e : Effect) → W → e.Answer × W} {R : W → W → Prop}
    (hR : Heedless answer R) {r r' : Routine α} (h : Echoed r r') {w w' : W} (hw : R w w') :
    (r'.run answer w').1 = (r.run answer w).1 ∧ R (r.run answer w).2 (r'.run answer w').2 ∧
      Annotated ((r.moments answer w).map (·.reply answer)) ((r'.moments answer w').map (·.reply answer)) := by
  induction h generalizing w w' with
  | done a => exact ⟨rfl, hw, .nil⟩
  | @perform e next next' _ ih =>
    obtain ⟨he, hn⟩ := hR.same e w w' hw
    obtain ⟨h1, h2, h3⟩ := ih (answer e w).1 hn
    have hnext : next' (answer e w').1 = next' (answer e w).1 := congrArg next' he
    have hreply : (⟨e, w'⟩ : Moment W).reply answer = (⟨e, w⟩ : Moment W).reply answer := by
      rw [Moment.reply, Moment.reply, he]
    simp only [run, moments, hnext, List.map_cons, hreply]
    exact ⟨h1, h2, .same _ h3⟩
  | note message _ ih =>
    obtain ⟨h1, h2, h3⟩ := ih (hR.note message w w' hw)
    exact ⟨h1, h2, .note message h3⟩

namespace Execution

/-- A line that echoes does what it does without, and comes to the same. Only reports are added. -/
theorem execute_noted (settings : Settings) {i j : Instruction} (h : i.EchoOf j)
    {answer : (e : Effect) → W → e.Answer × W} {R : W → W → Prop} (hR : Heedless answer R)
    {w w' : W} (hw : R w w') :
    (execute settings j).result answer w' = (execute settings i).result answer w ∧
      ((execute settings j).replies answer w').filter (!·.effect.isLog) =
        ((execute settings i).replies answer w).filter (!·.effect.isLog) ∧
      Annotated ((execute settings i).replies answer w) ((execute settings j).replies answer w') := by
  obtain ⟨hresult, -, hnoted⟩ := (execute_echoed settings h).runs hR hw
  exact ⟨hresult, hnoted.filter_isLog, hnoted⟩

theorem trial_heedless : Heedless Trial.respond Trial.Alike where
  same e w w' h := by
    obtain ⟨logged, rfl⟩ := h
    cases e <;> exact ⟨rfl, _, rfl⟩
  note message w w' h := by
    obtain ⟨logged, rfl⟩ := h
    exact ⟨_, rfl⟩

def echoedItem : Instruction :=
  { Trial.item with modifiers := Trial.item.modifiers.put "echo" (.flag true) }

theorem item_noted : Trial.item.EchoOf echoedItem ∧ Heedless Trial.respond Trial.Alike ∧
    Trial.Alike Trial.stocked Trial.stocked ∧
    ((execute .fresh echoedItem).result Trial.respond Trial.stocked).toOption = some .completed ∧
    Annotated ((execute .fresh Trial.item).replies Trial.respond Trial.stocked)
      ((execute .fresh echoedItem).replies Trial.respond Trial.stocked) := by
  have h : Trial.item.EchoOf echoedItem := by
    refine ⟨rfl, rfl, rfl, fun name hn => ?_⟩
    rw [Instruction.modifier?, echoedItem, Table.get?_put, if_neg hn]
    rfl
  have hw : Trial.Alike Trial.stocked Trial.stocked := ⟨[], rfl⟩
  obtain ⟨hresult, -, hnoted⟩ := execute_noted .fresh h trial_heedless hw
  have hplain : ((execute .fresh Trial.item).result Trial.respond Trial.stocked).toOption =
      some .completed := by decide +kernel
  exact ⟨h, trial_heedless, hw, (congrArg Except.toOption hresult).trans hplain, hnoted⟩

end Execution

end Macros
