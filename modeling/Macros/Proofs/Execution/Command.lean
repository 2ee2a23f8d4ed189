import Macros.Proofs.Execution.Determined
import Macros.Proofs.Grammar.Read

/-!
Commands and lines with a client that is there. No command but the one for it starts a macro, and a
line that starts one does so before anything else.
-/

namespace Macros.Execution

open Act

variable {α : Type} {asks : Bool}

theorem determined_usable (x : Except OptionError α) : Determined asks (usable x) := by
  refine .ofExcept ?_
  cases x with
  | ok a => exact answered_ok a
  | error e => exact answered_error.2 fun m h => by simp at h

theorem determined_fail (kind : FailureKind) (message : String) :
    Determined asks (fail kind message : Act α) :=
  .throw fun m h => by simp [Fault.failed] at h

theorem echo_fixed (i : Instruction) (message : String) : Fixed (.ok ()) (echo i message) := by
  unfold echo
  split
  · exact .log _ _
  · exact .done _

theorem determined_echo (i : Instruction) (message : String) : Determined asks (echo i message) :=
  .fixed (answered_ok ()) (echo_fixed i message)

/-- A command goes on only if nothing is wrong. -/
theorem determined_check {p : Prop} [Decidable p] {kind : FailureKind} {message : String}
    {f : Unit → Act α} (h : ∀ u, Determined asks (f u)) :
    Determined asks (if p then fail kind message >>= f else f ()) := by
  split
  · exact .bind (determined_fail _ _) h
  · exact h ()

/-! Waiting. -/

theorem sleepFrom_fixed (total elapsed : Binary64) :
    Fixed (.ok ()) (Wait.sleepFrom total elapsed) := by
  unfold Wait.sleepFrom
  split
  · refine .lift rfl fun stopped => ?_
    split
    · exact .inl rfl
    · refine .lift rfl fun _ => ?_
      split
      · exact sleepFrom_fixed total _
      · exact .inr rfl
  · exact .inl rfl
termination_by Wait.room elapsed

/-- The wait came to its end, unless it has none. -/
def Waited (x : Except Fault Unit) : Prop := x = .ok () ∨ x = .error .endless

theorem sleepFrom_waited (total elapsed : Binary64) :
    (Wait.sleepFrom total elapsed).Ends Waited := (sleepFrom_fixed total elapsed).quiet

theorem determined_giveUp (m : Misfit) : Determined asks (Wait.giveUp m) := by
  have h : Determined asks (throw (.misfit m) : Act Unit) := .throw fun _ h => by simp at h
  unfold Wait.giveUp
  split
  · refine .bind .stopped fun stopped => ?_
    split
    · exact .pure ()
    · exact h
  · exact h

theorem determined_sleep (total : Value) : Determined asks (Wait.sleep total) := by
  unfold Wait.sleep
  split
  · exact .fixed (answered_ok ()) (sleepFrom_fixed _ _)
  · exact determined_giveUp _

theorem determined_pollFrom {question : Act Bool} (hq : Determined asks question)
    (limit elapsed : Binary64) : Determined asks (Wait.pollFrom question limit elapsed) := by
  unfold Wait.pollFrom
  refine .bind hq fun found => ?_
  split
  · exact .pure true
  · refine .bind .stopped fun stopped => ?_
    split
    · exact .pure false
    · split
      · exact .pure false
      · refine .bind (.fixed (answered_ok ()) ⟨rfl, fun _ => .inl rfl⟩) fun _ => ?_
        split
        · exact determined_pollFrom hq limit _
        · exact .throw fun _ h => by simp at h
termination_by Wait.room elapsed

theorem determined_poll {question : Act Bool} (hq : Determined asks question) (limit : Value) :
    Determined asks (Wait.poll question limit) := by
  unfold Wait.poll
  split
  · exact determined_pollFrom hq _ _
  · refine .bind hq fun found => ?_
    split
    · exact .pure true
    · refine .bind .stopped fun stopped => ?_
      split
      · exact .pure false
      · exact .throw fun _ h => by simp at h

@[simp] theorem toBinary_number (x : Binary64) : (Value.number x).toBinary = .ok x := by
  cases x <;> rfl

theorem hundredths_number (x : Binary64) :
    (Value.number x).hundredths = .ok (Decimal.hundredths x) := by
  show (Value.number x).toBinary.map _ = _
  rw [toBinary_number]
  rfl

theorem sleep_number (t : Binary64) : Wait.sleep (.number t) = Wait.sleepFrom t .zero := by
  cases t with
  | infinite s => cases s <;> rfl
  | _ => rfl

/-- What is picked does not hang on the random numbers, or is a number at any rate. -/
theorem pick_cases (span : Value) : (∃ y, Answered y ∧ Fixed y (Wait.pick span)) ∨
    (Wait.pick span).run.Lone fun x => ∃ t, x = .ok (.number t) := by
  have hmisfit : ∀ m, Answered (.error (.misfit m) : Except Fault Value) ∧
      Fixed (.error (.misfit m)) (throw (.misfit m) : Act Value) := fun m =>
    ⟨answered_error.2 fun _ h => by simp at h, .done _⟩
  unfold Wait.pick
  cases span.pair with
  | error m => exact .inl ⟨_, hmisfit m⟩
  | ok pair =>
    obtain ⟨low, high⟩ := pair
    rw [fit_ok]
    dsimp only
    split
    · exact .inl ⟨_, hmisfit _⟩
    · exact .inl ⟨_, answered_ok low, .done (.ok low)⟩
    · cases high.minus low with
      | error m => exact .inl ⟨_, hmisfit m⟩
      | ok width =>
        rw [fit_ok]
        cases width.toBinary with
        | error m => exact .inl ⟨_, (hmisfit m).1, .lift rfl fun _ => (hmisfit m).2⟩
        | ok w =>
          cases low.toBinary with
          | error m => exact .inl ⟨_, (hmisfit m).1, .lift rfl fun _ => (hmisfit m).2⟩
          | ok l => exact .inr ⟨rfl, fun r => ⟨_, rfl⟩⟩

/-- What follows the picking of a time is determined if it comes to the same for all numbers. -/
theorem determined_pick (span : Value) {f : Value → Act α} {y : Except Fault α} (hy : Answered y)
    (hf : ∀ v, Determined asks (f v)) (hn : ∀ t, Fixed y (f (.number t))) :
    Determined asks (Wait.pick span >>= f) := by
  rcases pick_cases span with ⟨x, hx, h⟩ | h
  · exact .bind (.fixed hx h) hf
  · refine .fixed hy (Routine.Lone.bind (f := ExceptT.bindCont f) h fun x hx => ?_)
    obtain ⟨t, rfl⟩ := hx
    exact hn t

/-! Commands. -/

theorem determined_attempt (name : Value) (unconfirmed : Bool) (budget : Value) (total left done : Nat) :
    Determined true (attempt name unconfirmed budget total left done) := by
  induction left generalizing done with
  | zero => exact .pure _
  | succ left ih =>
    unfold attempt
    refine .bind (.ask _ rfl) fun _ => ?_
    split
    · exact .pure _
    · refine .bind (determined_poll (.ask _ rfl) budget) fun confirmed => ?_
      split
      · exact .pure _
      · refine .bind .stopped fun stopped => ?_
        split
        · exact .pure _
        · dsimp only
          split
          · exact .bind (.log _ _) fun _ => ih _
          · exact ih _

theorem determined_runAction (settings : Settings) (i : Instruction) :
    Determined true (runAction settings i) := by
  refine .bind (determined_usable _) fun budget => .bind (determined_usable _) fun retries => ?_
  refine .bind (determined_attempt _ _ _ _ _ _) fun attempts => ?_
  cases attempts
  · exact determined_echo _ _
  · exact .pure ()
  · exact determined_fail _ _

theorem determined_runWait (i : Instruction) : Determined asks (runWait i) := by
  refine determined_pick _ (answered_ok ()) (fun seconds => ?_) fun t => ?_
  · exact .bind (.fit _) fun _ => .bind (determined_echo _ _) fun _ => determined_sleep seconds
  · rw [hundredths_number, fit_ok, sleep_number]
    exact (echo_fixed _ _).bind (sleepFrom_fixed t .zero)

theorem determined_runTarget (i : Instruction) : Determined true (runTarget i) :=
  .bind (.ask _ rfl) fun _ => determined_check fun _ => determined_echo _ _

theorem determined_runItem (i : Instruction) : Determined true (runItem i) :=
  .bind (.ask _ rfl) fun _ => determined_check fun _ => .bind (.ask _ rfl) fun _ =>
    determined_check fun _ => .bind (.ask _ rfl) fun _ => determined_echo _ _

theorem determined_need {question : Act Bool} (hq : Determined asks question) (limit : Value)
    (kind : FailureKind) (message : String) : Determined asks (need question limit kind message) := by
  unfold need
  refine .bind (determined_poll hq limit) fun found => ?_
  split
  · exact .pure _
  · refine .bind .stopped fun stopped => ?_
    split
    · exact .pure _
    · exact determined_fail kind message

theorem determined_runWaitAddon (i : Instruction) : Determined true (runWaitAddon i) := by
  refine .bind (determined_need (.ask _ rfl) _ _ _) fun found => ?_
  cases found
  · refine .bind (determined_need (.ask _ rfl) _ _ _) fun seen => ?_
    cases seen
    · exact determined_echo _ _
    · exact .pure ()
  · exact .pure ()

theorem determined_runClick (i : Instruction) : Determined true (runClick i) :=
  .bind (.ask _ rfl) fun _ => determined_check fun _ => determined_echo _ _

theorem determined_runRequire (i : Instruction) : Determined true (runRequire i) :=
  .bind (determined_need (.ask _ rfl) _ _ _) fun _ => .pure ()

theorem determined_runSend (i : Instruction) : Determined true (runSend i) :=
  .bind (.ask _ rfl) fun _ => determined_echo _ _

theorem determined_runHold (i : Instruction) : Determined true (runHold i) :=
  .bind (.ask _ rfl) fun _ => .pure ()

theorem determined_runRelease (i : Instruction) : Determined true (runRelease i) :=
  .bind (.ask _ rfl) fun _ => .pure ()

theorem determined_handler {settings : Settings} {i : Instruction} {m : Act Unit}
    (hc : i.command ≠ "runmacro") (h : handler? settings i = some m) : Determined true m := by
  unfold handler? at h
  split at h
  · exact (Option.some.inj h) ▸ determined_runAction settings i
  · exact (Option.some.inj h) ▸ determined_runWait i
  · exact (Option.some.inj h) ▸ Determined.say _ _
  · contradiction
  · exact (Option.some.inj h) ▸ Determined.pure ()
  · exact (Option.some.inj h) ▸ determined_runTarget i
  · exact (Option.some.inj h) ▸ determined_runItem i
  · exact (Option.some.inj h) ▸ determined_runWaitAddon i
  · exact (Option.some.inj h) ▸ determined_runClick i
  · exact (Option.some.inj h) ▸ determined_runRequire i
  · exact (Option.some.inj h) ▸ determined_runSend i
  · exact (Option.some.inj h) ▸ determined_runHold i
  · exact (Option.some.inj h) ▸ determined_runRelease i
  · simp at h

/-! Lines. -/

theorem determined_conditionMet (i : Instruction) : Determined true (conditionMet i) := by
  unfold conditionMet
  split
  · exact .pure true
  · split
    · exact .pure true
    · exact .bind (.condition rfl) fun _ => .bind (.fit _) fun _ => .pure _

theorem conditionMet_of_not_has {i : Instruction} (h : i.has "condition" = false) :
    conditionMet i = pure true := by
  have h' : i.modifier? "condition" = none := by
    simpa [Instruction.has, Instruction.modifier?, Table.has] using h
  unfold conditionMet
  rw [h']

theorem determined_trailingWait (i : Instruction) : Determined asks (trailingWait i) := by
  unfold trailingWait
  split
  · exact .pure ()
  · exact .pure ()
  · refine determined_pick _ (answered_ok ()) determined_sleep fun t => ?_
    rw [sleep_number]
    exact sleepFrom_fixed t .zero

theorem determined_caught {e : Fault} (h : e.escapes = false) : Determined asks (caught e) := by
  cases e with
  | failure kind message => exact .pure _
  | unavailable m => simp [Fault.escapes] at h
  | _ => exact .throw fun _ h => by simp at h

theorem caught_escapes {e : Fault} (h : e.escapes) : caught e = throw e := by
  cases e <;> first | rfl | simp [Fault.escapes] at h

theorem determined_guarded {m : Act Unit} (h : Determined asks m) : Determined asks (guarded m) :=
  .tryCatch (.bind h fun _ => .pure none) (fun _ => determined_caught) fun _ => caught_escapes

theorem determined_conclude (i : Instruction) (x : Option Outcome) :
    Determined asks (conclude i x) := by
  cases x with
  | some o => exact .pure o
  | none => exact .bind (determined_trailingWait i) fun _ => .pure _

/-- What follows a condition that is not met. -/
theorem skip_determined (i : Instruction) : Determined true (do
    echo i ("Skipped (condition): " ++ i.text)
    return Outcome.skipped "condition not met") :=
  .bind (determined_echo _ _) fun _ => .pure _

/-- A line for anything but a macro starts none, and the client decides what it comes to. -/
theorem execute_determined (settings : Settings) {i : Instruction} (hc : i.command ≠ "runmacro") :
    Determined true (execute settings i) := by
  unfold execute
  split
  · exact .pure _
  · next m hm =>
    refine .bind (determined_conditionMet i) fun met => ?_
    split
    · exact skip_determined i
    · exact .bind (determined_guarded (determined_handler hc hm)) fun x => determined_conclude i x

/-- The command for a macro starts it at once. -/
theorem runMacro_launches (i : Instruction) :
    Launches i.args (guarded (runMacro i) >>= conclude i) := by
  have hm : Launches i.args (runMacro i) := by
    refine .bind (.tryCatch (.start _) (fun e he => ?_) fun e he => ?_) fun _ => determined_echo _ _
    · cases e with
      | lookup e => exact determined_fail _ _
      | unavailable m => simp [Fault.escapes] at he
      | _ => exact .throw fun _ h => by simp at h
    · cases e <;> first | rfl | simp [Fault.escapes] at he
  have hg : Launches i.args (guarded (runMacro i)) :=
    .tryCatch (.bind hm fun _ => .pure none) (fun _ => determined_caught) fun _ => caught_escapes
  exact hg.bind (determined_conclude i)

/-- What a line comes to that has started a macro: it is completed, unless its wait does not fit. -/
def Underway (x : Except Fault Outcome) : Prop := Answered x ∧ ∀ y, x = .ok y → y = .completed

theorem runMacro_goes_on (i : Instruction) :
    ∃ next, (guarded (runMacro i) >>= conclude i).run = .perform (.start i.args) next ∧
      (next (.ok ())).Lone Underway ∧ ∀ x, Answered x → (next x).Lone Answered := by
  obtain ⟨next, hn, hd⟩ := runMacro_launches i
  refine ⟨next, hn, ?_, fun x hx => (hd x hx).lone⟩
  have hx : next (.ok ()) = (guarded (echo i ("Running macro " ++ i.args.quoted)) >>= conclude i).run := by
    rw [← eq_of_heq (Routine.perform.inj hn).2]
    rfl
  have he : (guarded (echo i ("Running macro " ++ i.args.quoted))).run.Lone
      fun x => x = .ok none ∨ x = .error .endless := by
    refine Routine.Lone.bind (Fixed.bind (echo_fixed _ _) (Fixed.done (.ok none))) fun x hx => ?_
    rcases hx with rfl | rfl
    · exact .inl rfl
    · exact .inr rfl
  rw [hx]
  refine Routine.Lone.bind he fun x hx => ?_
  rcases hx with rfl | rfl
  · refine Routine.Lone.bind (determined_trailingWait i).lone fun x hx => ?_
    cases x with
    | ok _ => exact ⟨answered_ok _, fun y hy => (Except.ok.inj hy).symm⟩
    | error e => exact ⟨answered_error.2 (answered_error.1 hx), fun y hy => by simp at hy⟩
  · exact ⟨answered_error.2 fun m h => by simp at h, fun y hy => by simp at hy⟩

theorem execute_runMacro (settings : Settings) {i : Instruction} (hc : i.command = "runmacro") :
    execute settings i = (do
      if !(← conditionMet i) then
        echo i ("Skipped (condition): " ++ i.text)
        return .skipped "condition not met"
      guarded (runMacro i) >>= conclude i) := by
  have hh : handler? settings i = some (runMacro i) := by simp [handler?, hc]
  unfold execute
  rw [hh]

theorem execute_tame (settings : Settings) {i : Instruction} (hc : i.command ≠ "runmacro") :
    Tame (execute settings i) := (execute_determined settings hc).tame

/-- A line for a macro starts it at once, if it has no condition. -/
theorem execute_opens (settings : Settings) {i : Instruction} (hc : i.command = "runmacro")
    (hd : i.has "condition" = false) : Opens i.args (execute settings i) := by
  rw [execute_runMacro settings hc, conditionMet_of_not_has hd]
  exact (runMacro_launches i).opens

theorem minus_number (x y : Binary64) :
    (Value.number x).minus (.number y) = .ok (.number (x.sub y)) := by
  simp [Value.minus, Value.toInt?]

/-- A time can always be picked from a span, and it is a number. -/
theorem pick_ends (p : Span) :
    (Wait.pick p.toValue).Ends fun x => ∃ t, x = .ok (.number t) := by
  have hp : p.toValue.pair = .ok (.number p.low, .number p.high) := rfl
  have hc : (Value.number p.high).atMost? (.number p.low) = some (p.high.le p.low) := rfl
  unfold Wait.pick
  rw [hp]
  refine Ends.bind (P := (· = .ok (Value.number p.low, Value.number p.high))) (.done rfl)
    (fun x hx => ?_) (by simp)
  obtain rfl := Except.ok.inj hx
  dsimp only
  rw [hc]
  cases p.high.le p.low with
  | true => exact .done ⟨p.low, rfl⟩
  | false =>
    dsimp only
    rw [minus_number]
    refine .lift rfl fun r => ?_
    rw [toBinary_number, toBinary_number]
    exact .done ⟨_, rfl⟩

theorem trailingWait_waited {i : Instruction} (h : i.PlainWait) : (trailingWait i).Ends Waited := by
  unfold trailingWait
  split
  · exact .done (.inl rfl)
  · exact .done (.inl rfl)
  · next v _ hv =>
    obtain ⟨p, rfl⟩ := h v hv
    refine .bind (pick_ends p) ?_ ?_
    · rintro _ ⟨t, ht⟩
      obtain rfl := Except.ok.inj ht
      rw [sleep_number]
      exact sleepFrom_waited t .zero
    · rintro e ⟨t, ht⟩
      simp at ht

/-- A loop line goes through, if its wait ever ends. -/
theorem execute_loop (settings : Settings) {i : Instruction} (hc : i.command = "loop")
    (hd : i.has "condition" = false) (hw : i.PlainWait) :
    (execute settings i).Ends fun x => x = .ok .completed ∨ x = .error .endless := by
  have hh : handler? settings i = some (pure ()) := by simp [handler?, hc]
  have hg : guarded (pure ()) = pure none := rfl
  unfold execute
  rw [hh]
  dsimp only
  rw [conditionMet_of_not_has hd, hg]
  show Ends _ (trailingWait i >>= fun _ => pure Outcome.completed)
  refine .bind (trailingWait_waited hw) (fun _ _ => .done ?_) fun e he => ?_
  · exact .inl rfl
  · rcases he with he | he
    · simp at he
    · exact .inr (congrArg _ (Except.error.inj he))

end Macros.Execution
