import Macros.Proofs.Execution.Determined
import Macros.Proofs.Execution.Watchful

/-!
The order in which a line acts: the condition, then the command, then the wait. What comes later is not begun
when what comes before does not let the line go on.
-/

namespace Macros

variable {α W : Type} {answer : (e : Effect) → W → e.Answer × W}

namespace Effect

/-- What a wait consists of. -/
def isWaiting : Effect → Bool
  | sleep _ | stopped | draw => true
  | _ => false

theorem isCall_of_isWaiting {e : Effect} (h : e.isWaiting) : e.isCall = false := by
  cases e <;> first | rfl | simp [isWaiting] at h

end Effect

namespace Routine

/-- All that is done is waiting. -/
inductive OnlyWaits : Routine α → Prop
  | done (a : α) : OnlyWaits (done a)
  | perform {e : Effect} {next : e.Answer → Routine α} (he : e.isWaiting) (h : ∀ x, OnlyWaits (next x)) :
    OnlyWaits (perform e next)

theorem OnlyWaits.bind {β : Type} {r : Routine α} {f : α → Routine β} (h : r.OnlyWaits)
    (hf : ∀ a, (f a).OnlyWaits) : (r.bind f).OnlyWaits := by
  induction h with
  | done a => exact hf a
  | perform he _ ih => exact .perform he ih

theorem OnlyWaits.moments {r : Routine α} (h : r.OnlyWaits) {w : W} {m : Moment W}
    (hm : m ∈ r.moments answer w) : m.effect.isWaiting := by
  induction h generalizing w with
  | done a => simp [Routine.moments] at hm
  | perform he _ ih =>
    rcases List.mem_cons.1 hm with rfl | hm
    · exact he
    · exact ih _ hm

/-- What no effect undoes is there in all that follows. -/
theorem moments_after {P : W → Prop} (hP : ∀ e w, P w → P (answer e w).2) (r : Routine α) {w : W} :
    (P w → ∀ m ∈ r.moments answer w, P m.world) ∧
      ∀ front m back, r.moments answer w = front ++ m :: back → P (answer m.effect m.world).2 →
        ∀ n ∈ back, P n.world := by
  induction r generalizing w with
  | done a => exact ⟨fun _ m hm => by simp [moments] at hm, fun front m back h => by simp [moments] at h⟩
  | perform e next ih =>
    refine ⟨fun hw m hm => ?_, fun front m back h hm => ?_⟩
    · rcases List.mem_cons.1 hm with rfl | hm
      · exact hw
      · exact (ih _).1 (hP e w hw) m hm
    · cases front with
      | nil =>
        obtain ⟨rfl, rfl⟩ := List.cons.inj h
        exact (ih _).1 hm
      | cons m' front => exact (ih _).2 front m back (List.cons.inj h).2 hm

end Routine

namespace Act

def moments (answer : (e : Effect) → W → e.Answer × W) (m : Act α) (w : W) : List (Moment W) :=
  m.run.moments answer w

/-- All that is done is waiting. -/
def OnlyWaits (m : Act α) : Prop := m.run.OnlyWaits

namespace OnlyWaits

theorem done (x : Except Fault α) : OnlyWaits (ofExcept x) := Routine.OnlyWaits.done x

theorem lift {e : Effect} (he : e.isWaiting) : OnlyWaits (ExceptT.lift (Routine.effect e)) :=
  Routine.OnlyWaits.perform he fun _ => .done _

theorem bind {β : Type} {m : Act α} {f : α → Act β} (h : OnlyWaits m) (hf : ∀ a, OnlyWaits (f a)) :
    OnlyWaits (m >>= f) := by
  refine Routine.OnlyWaits.bind (f := ExceptT.bindCont f) h fun x => ?_
  cases x with
  | ok a => exact hf a
  | error e => exact .done _

end OnlyWaits

end Act

namespace Execution

open Act

variable {settings : Settings} {i : Instruction} {command : Act Unit} {w w₁ w₂ w₃ : W}
  {gate body rest : List (Moment W)}

theorem echo_runs (answer : (e : Effect) → W → e.Answer × W) (i : Instruction) (message : String) (w : W) :
    ∃ ms w', (echo i message).Runs answer w ms (.ok ()) w' ∧
      ∀ m ∈ ms, m.effect = .log .info (.text message) := by
  unfold echo
  split
  · exact ⟨_, _, .lift _ _, by simp⟩
  · exact ⟨_, _, .pure _ _, by simp⟩

/-! The condition. -/

/-- The line has a condition, and the current one does not match it. -/
def Shut (answer : (e : Effect) → W → e.Answer × W) (i : Instruction) (w : W) : Prop :=
  ∃ names parts current, i.modifier? "condition" = some names ∧ names.truthy ∧
    conditionNames names = .ok parts ∧ (answer .condition w).1 = .ok current ∧
    matchesCondition parts (Text.lower current) = false

theorem conditionMet_shut (h : Shut answer i w) :
    (conditionMet i).Runs answer w [⟨.condition, w⟩] (.ok false) (answer .condition w).2 := by
  obtain ⟨names, parts, current, hi, ht, hp, hc, hm⟩ := h
  have hask : Act.condition.Runs answer w _ _ _ := Runs.condition w
  rw [hc] at hask
  have hfit : (Act.fit (conditionNames names) >>= fun parts =>
      pure (matchesCondition parts (Text.lower current)) : Act Bool).Runs answer (answer .condition w).2 []
      (.ok false) (answer .condition w).2 := by
    rw [hp, fit_ok, hm]
    exact .pure _ _
  unfold conditionMet
  rw [hi]
  simp only [ht, Bool.not_true, Bool.false_eq_true, ↓reduceIte]
  exact hask.bind hfit

/-- The condition is asked for once at most, and nothing else is done for it. -/
theorem conditionMet_moments {x : Except Fault Bool} (h : (conditionMet i).Runs answer w gate x w₁) :
    gate = [] ∨ gate = [⟨.condition, w⟩] := by
  have hnone : ∀ y : Except Fault Bool, (ofExcept y).Runs answer w gate x w₁ → gate = [] := fun y hy =>
    (Runs.done y w).unique hy |>.1
  unfold conditionMet at h
  split at h
  · exact .inl (hnone _ h)
  · split at h
    · exact .inl (hnone _ h)
    · right
      obtain ⟨ms, current, w', ms', hc, hrest, rfl⟩ | ⟨e, he, -⟩ := h.cases_bind
      · obtain ⟨rfl, -, rfl⟩ := (Runs.condition w).unique hc
        obtain ⟨fs, parts, w'', ps, hf, hp, rfl⟩ | ⟨e, he, -⟩ := hrest.cases_bind
        · rw [((Runs.done _ _).unique hf).1, ((Runs.pure _ _).unique hp).1]
          rfl
        · rw [((Runs.done _ _).unique he).1]
          rfl
      · exact ((Runs.condition w).unique he).1

/-! The command. -/

/-- What a line comes to whose command has ended in a fault. -/
def settled : Fault → Except Fault Outcome
  | .failure kind message => .ok (outcomeOf kind message)
  | f => .error f

theorem guarded_runs (h : command.Runs answer w body (.ok ()) w₁) :
    (guarded command).Runs answer w body (.ok none) w₁ := by
  have hnone := h.bind (f := fun _ => pure none) (Runs.pure (none : Option Outcome) w₁)
  rw [List.append_nil] at hnone
  exact hnone.tryCatch_ok

theorem conclude_guarded_error {e : Fault} (h : command.Runs answer w body (.error e) w₁) :
    (guarded command >>= conclude i).Runs answer w body (settled e) w₁ := by
  have hthrow : ∀ f, e = f → caught e = throw f → settled e = .error f →
      (guarded command >>= conclude i).Runs answer w body (settled e) w₁ := by
    rintro f rfl hc hs
    have hg : (guarded command).Runs answer w (body ++ []) (.error e) w₁ :=
      .tryCatch (.bind_error h) (hc ▸ .throw e w₁)
    rw [List.append_nil] at hg
    exact hs ▸ .bind_error hg
  cases e with
  | failure kind message =>
    have hg : (guarded command).Runs answer w (body ++ []) (.ok (some (outcomeOf kind message))) w₁ :=
      .tryCatch (.bind_error h) (.pure _ w₁)
    have hall := hg.bind (f := conclude i) (.pure (outcomeOf kind message) w₁)
    rwa [List.append_nil, List.append_nil] at hall
  | _ => exact hthrow _ rfl rfl rfl

/-! The wait. -/

theorem sleepFrom_waits (total elapsed : Binary64) : OnlyWaits (Wait.sleepFrom total elapsed) := by
  unfold Wait.sleepFrom
  split
  · refine .bind (.lift rfl) fun stopped => ?_
    split
    · exact .done _
    · refine .bind (.lift rfl) fun _ => ?_
      split
      · exact sleepFrom_waits total _
      · exact .done _
  · exact .done _
termination_by Wait.room elapsed

theorem giveUp_waits (m : Misfit) : OnlyWaits (Wait.giveUp m) := by
  unfold Wait.giveUp
  split
  · refine .bind (.lift rfl) fun stopped => ?_
    split <;> exact .done _
  · exact .done _

theorem sleep_waits (total : Value) : OnlyWaits (Wait.sleep total) := by
  unfold Wait.sleep
  split
  · exact sleepFrom_waits _ _
  · exact giveUp_waits _

theorem pick_waits (span : Value) : OnlyWaits (Wait.pick span) := by
  unfold Wait.pick
  refine .bind (.done _) fun (low, high) => ?_
  dsimp only
  split
  · exact .done _
  · exact .done _
  · exact .bind (.done _) fun _ => .bind (.lift rfl) fun _ => .bind (.done _) fun _ => .bind (.done _)
      fun _ => .done _

theorem trailingWait_waits (i : Instruction) : OnlyWaits (trailingWait i) := by
  unfold trailingWait
  split
  · exact .done _
  · exact .done _
  · exact .bind (pick_waits _) sleep_waits

/-! The whole line. -/

theorem execute_unknown (h : handler? settings i = none) (w : W) :
    (execute settings i).Runs answer w [] (.ok (.failed .unsupported ("No handler for /" ++ i.command))) w := by
  unfold execute
  rw [h]
  exact .pure _ w

theorem execute_gate_error (hh : handler? settings i = some command) {e : Fault}
    (hg : (conditionMet i).Runs answer w gate (.error e) w₁) :
    (execute settings i).Runs answer w gate (.error e) w₁ := by
  unfold execute
  rw [hh]
  exact .bind_error hg

/-- Where the condition is not met, the line reports that at most. -/
theorem execute_shut (hh : handler? settings i = some command)
    (hg : (conditionMet i).Runs answer w gate (.ok false) w₁) :
    ∃ notes w', (execute settings i).Runs answer w (gate ++ notes) (.ok (.skipped "condition not met")) w' ∧
      ∀ m ∈ notes, m.effect.isLog := by
  obtain ⟨notes, w', hn, hlog⟩ := echo_runs answer i ("Skipped (condition): " ++ i.text) w₁
  refine ⟨notes, w', ?_, fun m hm => by rw [hlog m hm]; rfl⟩
  have hskip := hn.bind (f := fun _ => pure (Outcome.skipped "condition not met")) (.pure _ w')
  rw [List.append_nil] at hskip
  unfold execute
  rw [hh]
  exact hg.bind hskip

theorem execute_failed (hh : handler? settings i = some command)
    (hg : (conditionMet i).Runs answer w gate (.ok true) w₁) {e : Fault}
    (hc : command.Runs answer w₁ body (.error e) w₂) :
    (execute settings i).Runs answer w (gate ++ body) (settled e) w₂ := by
  unfold execute
  rw [hh]
  exact hg.bind (conclude_guarded_error hc)

theorem execute_went_through (hh : handler? settings i = some command)
    (hg : (conditionMet i).Runs answer w gate (.ok true) w₁)
    (hc : command.Runs answer w₁ body (.ok ()) w₂) {z : Except Fault Unit}
    (hw : (trailingWait i).Runs answer w₂ rest z w₃) :
    (execute settings i).Runs answer w (gate ++ (body ++ rest)) (z.map fun _ => .completed) w₃ := by
  have hwait : (conclude i none).Runs answer w₂ rest (z.map fun _ => .completed) w₃ := by
    cases z with
    | ok u =>
      have := hw.bind (f := fun _ => pure Outcome.completed) (.pure _ w₃)
      rwa [List.append_nil] at this
    | error e => exact .bind_error hw
  unfold execute
  rw [hh]
  exact hg.bind ((guarded_runs hc).bind hwait)

/-- The order in which a line acts. -/
structure InOrder (answer : (e : Effect) → W → e.Answer × W) (stop : W → Bool) (settings : Settings)
    (i : Instruction) (w : W) : Prop where
  /-- Where there is no such command, nothing is done. -/
  unknown : handler? settings i = none →
    (execute settings i).result answer w = .ok (.failed .unsupported ("No handler for /" ++ i.command)) ∧
      (execute settings i).moments answer w = []
  /-- A condition that does not match is all that is asked for. -/
  shut : ∀ command, handler? settings i = some command → Shut answer i w →
    (execute settings i).result answer w = .ok (.skipped "condition not met") ∧
      ((execute settings i).moments answer w).filter (·.effect.isCall) = [⟨.condition, w⟩] ∧
      ∀ m ∈ (execute settings i).moments answer w, m.effect.isSleep = false
  /-- A condition that cannot be compared ends the line. -/
  unfit : ∀ command gate e w₁, handler? settings i = some command →
    (conditionMet i).Runs answer w gate (.error e) w₁ →
    (execute settings i).result answer w = .error e ∧ (execute settings i).moments answer w = gate ∧
      (gate = [] ∨ gate = [⟨.condition, w⟩])
  /-- A command that does not go through is not waited after. -/
  failed : ∀ command gate w₁ body e w₂, handler? settings i = some command →
    (conditionMet i).Runs answer w gate (.ok true) w₁ → command.Runs answer w₁ body (.error e) w₂ →
    (execute settings i).result answer w = settled e ∧
      (execute settings i).moments answer w = gate ++ body ∧ (gate = [] ∨ gate = [⟨.condition, w⟩])
  /-- After one that does, the wait comes last. -/
  waited : ∀ command gate w₁ body w₂, handler? settings i = some command →
    (conditionMet i).Runs answer w gate (.ok true) w₁ → command.Runs answer w₁ body (.ok ()) w₂ →
    ∃ rest, rest = (trailingWait i).moments answer w₂ ∧
      (execute settings i).moments answer w = gate ++ (body ++ rest) ∧
      (gate = [] ∨ gate = [⟨.condition, w⟩]) ∧ ∀ m ∈ rest, m.effect.isCall = false
  /-- Sleeps are short, and each begins while there is no stop. -/
  short : ∀ m ∈ (execute settings i).moments answer w, ∀ t, m.effect = .sleep t →
    t.le Limits.sleepChunk ∧ stop m.world = false
  /-- After what brings a stop that stays there is no sleep. -/
  heeded : (∀ e w, stop w = true → stop (answer e w).2 = true) →
    ∀ front m back, (execute settings i).moments answer w = front ++ m :: back →
      stop (answer m.effect m.world).2 = true → ∀ n ∈ back, n.effect.isSleep = false

/-- Whatever the client answers and whenever a stop comes in, a line acts in order. -/
theorem execute_in_order (settings : Settings) (i : Instruction) {stop : W → Bool}
    (hstop : ∀ w, answer .stopped w = (stop w, w)) (w : W) : InOrder answer stop settings i w := by
  have hsleeps : ∀ m ∈ (execute settings i).moments answer w, ∀ t, m.effect = .sleep t →
      t.le Limits.sleepChunk ∧ stop m.world = false := fun m hm t ht =>
    (execute_watchful settings i).sleeps hstop (by simp) hm ht
  constructor
  case unknown =>
    intro hh
    exact ⟨(execute_unknown hh w).result_eq, (execute_unknown hh w).moments⟩
  case shut =>
    intro command hh hs
    obtain ⟨notes, w', hrun, hlog⟩ := execute_shut hh (conditionMet_shut hs)
    have hms : (execute settings i).moments answer w = ⟨.condition, w⟩ :: notes := hrun.moments
    refine ⟨hrun.result_eq, ?_, ?_⟩
    · rw [hms, List.filter_cons_of_pos rfl, List.filter_eq_nil_iff.2]
      intro m hm
      simp [Effect.isCall_of_isLog (hlog m hm)]
    · rw [hms]
      exact List.forall_mem_cons.2 ⟨rfl, fun m hm => Effect.isSleep_of_isLog (hlog m hm)⟩
  case unfit =>
    intro command gate e w₁ hh hg
    have hrun := execute_gate_error hh hg
    exact ⟨hrun.result_eq, hrun.moments, conditionMet_moments hg⟩
  case failed =>
    intro command gate w₁ body e w₂ hh hg hc
    have hrun := execute_failed hh hg hc
    exact ⟨hrun.result_eq, hrun.moments, conditionMet_moments hg⟩
  case waited =>
    intro command gate w₁ body w₂ hh hg hc
    obtain ⟨rest, z, w₃, hw⟩ := Runs.exists_run answer (trailingWait i) w₂
    refine ⟨rest, hw.moments.symm, (execute_went_through hh hg hc hw).moments, conditionMet_moments hg,
      fun m hm => ?_⟩
    rw [← hw.moments] at hm
    exact Effect.isCall_of_isWaiting ((trailingWait_waits i).moments hm)
  case short => exact hsleeps
  case heeded =>
    intro hstay front m back hms hm n hn
    have hn' := (Routine.moments_after (P := (stop · = true)) hstay _).2 front m back hms hm n hn
    refine Bool.eq_false_iff.2 fun hsleep => ?_
    obtain ⟨t, ht⟩ := Effect.exists_of_isSleep hsleep
    have hstopped := (hsleeps n (hms ▸ by simp [hn]) t ht).2
    simp [hn'] at hstopped

/-- A line for no command that there is. -/
def stray : Instruction := { Trial.item with command := "nosuch" }

def poor : Trial := { Trial.stocked with condition := "Poor" }

/-- A line for no command that there is fails, whatever its condition. -/
theorem stray_not_skipped : Shut Trial.respond stray poor ∧
    (execute .fresh stray).result Trial.respond poor ≠ .ok (.skipped "condition not met") := by
  have h : Shut Trial.respond stray poor :=
    ⟨.tuple [.text "!poor"], ["!poor"], "Poor", rfl, rfl, rfl, rfl, by decide +kernel⟩
  refine ⟨h, fun hx => ?_⟩
  have hrun : (execute .fresh stray).Runs Trial.respond poor _ _ _ := execute_unknown rfl poor
  have hx' := hrun.result_eq.symm.trans hx
  simp [Outcome.failed, Outcome.skipped] at hx'

/-- A nap that is cut short, with a wait after it. -/
def nap : Instruction where
  command := "wait"
  rawArgs := "0.2"
  args := .tuple [.number (.ofDecimal false 2 (-1)), .number (.ofDecimal false 2 (-1))]
  modifiers := [("wait", .tuple [.number (.ofInt 1), .number (.ofInt 1)])]
  text := "/wait 0.2 <wait.1>"
  line := 1

def disturbed : Trial := { Trial.stocked with stopIn := some 2 }

theorem nap_in_order : (∀ w, Trial.respond .stopped w = (w.stopIn == some 0, w)) ∧
    Shut Trial.respond Trial.item poor ∧
    (execute .fresh Trial.item).result Trial.respond poor = .ok (.skipped "condition not met") ∧
    ((execute .fresh nap).moments Trial.respond disturbed).countP (·.effect.isSleep) = 2 ∧
    ∀ m ∈ (execute .fresh nap).moments Trial.respond disturbed, ∀ t, m.effect = .sleep t →
      t.le Limits.sleepChunk ∧ (m.world.stopIn == some 0) = false := by
  have hstop : ∀ w, Trial.respond .stopped w = (w.stopIn == some 0, w) := fun w => rfl
  have hshut : Shut Trial.respond Trial.item poor :=
    ⟨.tuple [.text "!poor"], ["!poor"], "Poor", rfl, rfl, rfl, rfl, by decide +kernel⟩
  have hitem := execute_in_order .fresh Trial.item hstop poor
  have hnap := execute_in_order .fresh nap hstop disturbed
  exact ⟨hstop, hshut, (hitem.shut _ rfl hshut).1, by decide +kernel, hnap.short⟩

end Execution

end Macros
