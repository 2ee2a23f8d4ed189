import Macros.Proofs.Execution.Determined
import Macros.Proofs.Execution.Moments

/-!
How lines sleep. Whatever a line waits for, it sleeps for short times only, and before each of them it looks
for a stop and finds none. So no sleep begins once a stop is there.
-/

namespace Macros

variable {α β W : Type}

/-- Each sleep is short and comes right after a look for a stop that found none. `looked` says whether there
was such a look just before. -/
inductive Routine.Watchful : (looked : Bool) → Routine α → Prop
  | done {b : Bool} (a : α) : Watchful b (done a)
  | sleep {t : Binary64} {next : Unit → Routine α} (ht : t.le Limits.sleepChunk)
    (h : Watchful false (next ())) : Watchful true (perform (.sleep t) next)
  | stopped {b : Bool} {next : Bool → Routine α} (h : ∀ x, Watchful (!x) (next x)) :
    Watchful b (perform .stopped next)
  | other {b : Bool} {e : Effect} {next : e.Answer → Routine α} (he : ∀ t, e ≠ .sleep t)
    (h : ∀ x, Watchful false (next x)) : Watchful b (perform e next)

namespace Routine.Watchful

/-- A look that was not needed does no harm. -/
theorem looked {r : Routine α} (h : r.Watchful false) (b : Bool) : r.Watchful b := by
  cases h with
  | done a => exact .done a
  | stopped h => exact .stopped h
  | other he h => exact .other he h

theorem bind {b : Bool} {r : Routine α} {f : α → Routine β} (h : r.Watchful b)
    (hf : ∀ a, (f a).Watchful false) : (r.bind f).Watchful b := by
  induction h with
  | done a => exact (hf a).looked _
  | sleep ht _ ih => exact .sleep ht ih
  | stopped _ ih => exact .stopped ih
  | other he _ ih => exact .other he ih

/-- Every sleep is short and begins while there is no stop. -/
theorem sleeps {answer : (e : Effect) → W → e.Answer × W} {stop : W → Bool}
    (hstop : ∀ w, answer .stopped w = (stop w, w)) {b : Bool} {r : Routine α} (h : r.Watchful b) {w : W}
    (hw : b = true → stop w = false) {m : Moment W} (hm : m ∈ r.moments answer w) {t : Binary64}
    (ht : m.effect = .sleep t) : t.le Limits.sleepChunk ∧ stop m.world = false := by
  induction h generalizing w with
  | done a => simp [moments] at hm
  | @sleep u next hu _ ih =>
    rcases List.mem_cons.1 hm with rfl | hm
    · obtain rfl := Effect.sleep.inj ht
      exact ⟨hu, hw rfl⟩
    · exact ih (by simp) hm
  | stopped _ ih =>
    rcases List.mem_cons.1 hm with rfl | hm
    · simp at ht
    · rw [hstop w] at hm
      exact ih _ (by simp) hm
  | other he _ ih =>
    rcases List.mem_cons.1 hm with rfl | hm
    · exact absurd ht (he t)
    · exact ih _ (by simp) hm

end Routine.Watchful

namespace Act

def Watchful (m : Act α) : Prop := m.run.Watchful false

namespace Watchful

theorem done (x : Except Fault α) : Watchful (ofExcept x) := Routine.Watchful.done x

theorem pure (a : α) : Watchful (Pure.pure a : Act α) := .done _

theorem throw (e : Fault) : Watchful (MonadExcept.throw e : Act α) := .done _

theorem fit (x : Except Misfit α) : Watchful (Act.fit x) := .done _

theorem ask (r : Request) : Watchful (Act.ask r) := .other (by simp) fun x => .done x

theorem condition : Watchful Act.condition := .other (by simp) fun x => .done x

theorem start (name : Value) : Watchful (Act.start name) := .other (by simp) fun x => .done x

theorem draw : Watchful Act.draw := .other (by simp) fun _ => .done _

theorem say (level : Level) (message : Value) : Watchful (Act.say level message) :=
  .other (by simp) fun _ => .done _

theorem stopped : Watchful Act.stopped := Routine.Watchful.stopped fun _ => .done _

theorem bind {m : Act α} {f : α → Act β} (h : Watchful m) (hf : ∀ a, Watchful (f a)) :
    Watchful (m >>= f) := by
  refine Routine.Watchful.bind (f := ExceptT.bindCont f) h fun x => ?_
  cases x with
  | ok a => exact hf a
  | error e => exact .done _

/-- What comes right after a look for a stop may begin with a sleep if none was found. -/
theorem stopped_bind {f : Bool → Act α} (hf : ∀ x, (f x).run.Watchful (!x)) :
    Watchful (Act.stopped >>= f) := Routine.Watchful.stopped hf

/-- A short sleep. -/
theorem sleep_bind {t : Binary64} {f : Unit → Act α} (ht : t.le Limits.sleepChunk)
    (hf : Watchful (f ())) : (Act.sleep t >>= f).run.Watchful true := Routine.Watchful.sleep ht hf

theorem tryCatch {m : Act α} {f : Fault → Act α} (h : Watchful m) (hf : ∀ e, Watchful (f e)) :
    Watchful (MonadExcept.tryCatch m f) := by
  refine Routine.Watchful.bind h fun x => ?_
  cases x with
  | ok a => exact .done _
  | error e => exact hf e

end Watchful

end Act

namespace Binary64

theorem min_le {x : Binary64} (hx : x.le x) (y : Binary64) : (x.min y).le x := by
  unfold min
  split
  · next h => simp [le, h]
  · exact hx

end Binary64

namespace Wait

open Act

theorem chunk_le (total elapsed : Binary64) : (chunk total elapsed).le Limits.sleepChunk :=
  Binary64.min_le (by decide +kernel) _

theorem sleepFrom_watchful (total elapsed : Binary64) : Watchful (sleepFrom total elapsed) := by
  unfold sleepFrom
  split
  · refine .stopped_bind fun x => ?_
    cases x with
    | true => exact .done _
    | false =>
      refine Watchful.sleep_bind (chunk_le _ _) ?_
      split
      · exact sleepFrom_watchful total _
      · exact .throw _
  · exact .pure ()
termination_by room elapsed

theorem pollFrom_watchful {question : Act Bool} (hq : Watchful question) (limit elapsed : Binary64) :
    Watchful (pollFrom question limit elapsed) := by
  unfold pollFrom
  refine .bind hq fun found => ?_
  split
  · exact .pure true
  · refine .stopped_bind fun x => ?_
    cases x with
    | true => exact .done _
    | false =>
      simp only [Bool.false_eq_true, ↓reduceIte]
      split
      · exact .done _
      · refine Watchful.sleep_bind (chunk_le _ _) ?_
        split
        · exact pollFrom_watchful hq limit _
        · exact .throw _
termination_by room elapsed

theorem giveUp_watchful (m : Misfit) : Watchful (giveUp m) := by
  unfold giveUp
  split
  · refine .bind .stopped fun stopped => ?_
    split
    · exact .pure ()
    · exact .throw _
  · exact .throw _

theorem sleep_watchful (total : Value) : Watchful (sleep total) := by
  unfold sleep
  split
  · exact sleepFrom_watchful _ _
  · exact giveUp_watchful _

theorem poll_watchful {question : Act Bool} (hq : Watchful question) (limit : Value) :
    Watchful (poll question limit) := by
  unfold poll
  split
  · exact pollFrom_watchful hq _ _
  · refine .bind hq fun found => ?_
    split
    · exact .pure true
    · refine .bind .stopped fun stopped => ?_
      split
      · exact .pure false
      · exact .throw _

theorem pick_watchful (span : Value) : Watchful (pick span) := by
  unfold pick
  refine .bind (.fit _) fun (low, high) => ?_
  dsimp only
  split
  · exact .throw _
  · exact .pure low
  · exact .bind (.fit _) fun _ => .bind .draw fun _ => .bind (.fit _) fun _ => .bind (.fit _) fun _ =>
      .pure _

end Wait

namespace Execution

open Act

theorem usable_watchful (x : Except OptionError α) : Watchful (usable x) := .done _

theorem fail_watchful (kind : FailureKind) (message : String) : Watchful (fail kind message : Act α) :=
  .throw _

theorem echo_watchful (i : Instruction) (message : String) : Watchful (echo i message) := by
  unfold echo
  split
  · exact .say _ _
  · exact .pure ()

/-- A command goes on only if nothing is wrong. -/
theorem check_watchful {p : Prop} [Decidable p] {kind : FailureKind} {message : String}
    {f : Unit → Act α} (h : ∀ u, Watchful (f u)) :
    Watchful (if p then fail kind message >>= f else f ()) := by
  split
  · exact .bind (fail_watchful _ _) h
  · exact h ()

theorem attempt_watchful (name : Value) (unconfirmed : Bool) (budget : Value) (total left done : Nat) :
    Watchful (attempt name unconfirmed budget total left done) := by
  induction left generalizing done with
  | zero => exact .pure _
  | succ left ih =>
    unfold attempt
    refine .bind (.ask _) fun _ => ?_
    split
    · exact .pure _
    · refine .bind (Wait.poll_watchful (.ask _) budget) fun confirmed => ?_
      split
      · exact .pure _
      · refine .bind .stopped fun stopped => ?_
        split
        · exact .pure _
        · dsimp only
          split
          · exact .bind (.say _ _) fun _ => ih _
          · exact ih _

theorem runAction_watchful (settings : Settings) (i : Instruction) : Watchful (runAction settings i) := by
  refine .bind (usable_watchful _) fun budget => .bind (usable_watchful _) fun retries =>
    .bind (attempt_watchful _ _ _ _ _ _) fun attempts => ?_
  cases attempts with
  | confirmed => exact echo_watchful _ _
  | stopped => exact .pure ()
  | silent => exact fail_watchful _ _

theorem runWait_watchful (i : Instruction) : Watchful (runWait i) :=
  .bind (Wait.pick_watchful _) fun seconds => .bind (.fit _) fun _ => .bind (echo_watchful _ _) fun _ =>
    Wait.sleep_watchful seconds

theorem runMacro_watchful (i : Instruction) : Watchful (runMacro i) := by
  refine .bind (.tryCatch (.start _) fun e => ?_) fun _ => echo_watchful _ _
  split
  · exact fail_watchful _ _
  · exact .throw _

theorem runTarget_watchful (i : Instruction) : Watchful (runTarget i) :=
  .bind (.ask _) fun _ => check_watchful fun _ => echo_watchful _ _

theorem runItem_watchful (i : Instruction) : Watchful (runItem i) :=
  .bind (.ask _) fun _ => check_watchful fun _ => .bind (.ask _) fun _ => check_watchful fun _ =>
    .bind (.ask _) fun _ => echo_watchful _ _

theorem need_watchful {question : Act Bool} (hq : Watchful question) (limit : Value) (kind : FailureKind)
    (message : String) : Watchful (need question limit kind message) := by
  unfold need
  refine .bind (Wait.poll_watchful hq limit) fun found => ?_
  split
  · exact .pure _
  · refine .bind .stopped fun stopped => ?_
    split
    · exact .pure _
    · exact fail_watchful kind message

theorem runWaitAddon_watchful (i : Instruction) : Watchful (runWaitAddon i) := by
  refine .bind (need_watchful (.ask _) _ _ _) fun found => ?_
  cases found with
  | stopped => exact .pure ()
  | present =>
    refine .bind (need_watchful (.ask _) _ _ _) fun seen => ?_
    cases seen with
    | stopped => exact .pure ()
    | present => exact echo_watchful _ _

theorem runClick_watchful (i : Instruction) : Watchful (runClick i) :=
  .bind (.ask _) fun _ => check_watchful fun _ => echo_watchful _ _

theorem runRequire_watchful (i : Instruction) : Watchful (runRequire i) :=
  .bind (need_watchful (.ask _) _ _ _) fun _ => .pure ()

theorem runSend_watchful (i : Instruction) : Watchful (runSend i) :=
  .bind (.ask _) fun _ => echo_watchful _ _

/-- A command that only passes its argument on. -/
theorem passed_on_watchful (r : Request) : Watchful (discard (Act.ask r)) := .bind (.ask r) fun _ => .pure ()

theorem handler_watchful {settings : Settings} {i : Instruction} {m : Act Unit}
    (h : handler? settings i = some m) : Watchful m := by
  unfold handler? at h
  split at h
  · exact (Option.some.inj h) ▸ runAction_watchful settings i
  · exact (Option.some.inj h) ▸ runWait_watchful i
  · exact (Option.some.inj h) ▸ Watchful.say _ _
  · exact (Option.some.inj h) ▸ runMacro_watchful i
  · exact (Option.some.inj h) ▸ Watchful.pure ()
  · exact (Option.some.inj h) ▸ runTarget_watchful i
  · exact (Option.some.inj h) ▸ runItem_watchful i
  · exact (Option.some.inj h) ▸ runWaitAddon_watchful i
  · exact (Option.some.inj h) ▸ runClick_watchful i
  · exact (Option.some.inj h) ▸ runRequire_watchful i
  · exact (Option.some.inj h) ▸ runSend_watchful i
  · exact (Option.some.inj h) ▸ passed_on_watchful _
  · exact (Option.some.inj h) ▸ passed_on_watchful _
  · simp at h

theorem conditionMet_watchful (i : Instruction) : Watchful (conditionMet i) := by
  unfold conditionMet
  split
  · exact .pure true
  · split
    · exact .pure true
    · exact .bind .condition fun _ => .bind (.fit _) fun _ => .pure _

theorem trailingWait_watchful (i : Instruction) : Watchful (trailingWait i) := by
  unfold trailingWait
  split
  · exact .pure ()
  · exact .pure ()
  · exact .bind (Wait.pick_watchful _) Wait.sleep_watchful

theorem guarded_watchful {m : Act Unit} (h : Watchful m) : Watchful (guarded m) := by
  refine .tryCatch (.bind h fun _ => .pure none) fun e => ?_
  unfold caught
  split
  · exact .pure _
  · exact .throw _

theorem execute_watchful (settings : Settings) (i : Instruction) : Watchful (execute settings i) := by
  unfold execute
  split
  · exact .pure _
  · next m hm =>
    refine .bind (conditionMet_watchful i) fun met => ?_
    split
    · exact .bind (echo_watchful _ _) fun _ => .pure _
    · refine .bind (guarded_watchful (handler_watchful hm)) fun x => ?_
      cases x with
      | some o => exact .pure o
      | none => exact .bind (trailingWait_watchful i) fun _ => .pure _

end Execution

end Macros
