import Macros.Proofs.Execution.Order
import Macros.Proofs.Execution.Polling

/-!
Actions are tried until one of them is confirmed. A try uses the action once and polls for its confirmation; a
warning stands between a try that got no response and the next one.
-/

namespace Macros

variable {W : Type} {answer : (e : Effect) → W → e.Answer × W}

namespace Effect

def isWarning : Effect → Bool
  | log .warning _ => true
  | _ => false

theorem isWarning_of_isWaiting {e : Effect} (h : e.isWaiting) : e.isWarning = false := by
  cases e <;> first | rfl | simp [isWaiting] at h

end Effect

namespace Execution

open Act

variable {name budget : Value} {limit : Binary64} {total left done : Nat} {ts : List (List Effect.Reply)}
  {x : Except Fault Attempts}

/-- What is reported before an action is tried again. -/
def retryNote (name : Value) (k total : Nat) : Effect.Reply :=
  ⟨.log .warning (.text ("No response to " ++ name.quoted ++ ", retrying (" ++ toString k ++ "/"
    ++ toString (total - 1) ++ ")")), ()⟩

/-- The replies of one try after another, and how they end: the action is used, then its confirmation is polled
for, then a stop is looked for. -/
inductive Tries (answer : (e : Effect) → W → e.Answer × W) (name : Value) (limit : Binary64) (total : Nat) :
    (left done : Nat) → List (List Effect.Reply) → Except Fault Attempts → Prop
  | confirmed {left done : Nat} (b : Bool) {ps : List Effect.Reply} {w : W}
    (h : Polled answer (.actionConfirmed name) limit ps (.ok true) w) :
    Tries answer name limit total (left + 1) done [⟨.ask (.action name), .ok b⟩ :: ps] (.ok .confirmed)
  | fault {left done : Nat} (b : Bool) {ps : List Effect.Reply} {e : Fault} {w : W}
    (h : Polled answer (.actionConfirmed name) limit ps (.error e) w) :
    Tries answer name limit total (left + 1) done [⟨.ask (.action name), .ok b⟩ :: ps] (.error e)
  | stopped {left done : Nat} (b : Bool) {ps : List Effect.Reply} {w : W}
    (h : Polled answer (.actionConfirmed name) limit ps (.ok false) w) :
    Tries answer name limit total (left + 1) done
      [⟨.ask (.action name), .ok b⟩ :: (ps ++ [⟨.stopped, true⟩])] (.ok .stopped)
  | last {done : Nat} (b : Bool) {ps : List Effect.Reply} {w : W}
    (h : Polled answer (.actionConfirmed name) limit ps (.ok false) w) (hs : (answer .stopped w).1 = false) :
    Tries answer name limit total 1 done
      [⟨.ask (.action name), .ok b⟩ :: (ps ++ [⟨.stopped, false⟩])] (.ok .silent)
  | again {left done : Nat} (b : Bool) {ps : List Effect.Reply} {w : W} {ts : List (List Effect.Reply)}
    {x : Except Fault Attempts}
    (h : Polled answer (.actionConfirmed name) limit ps (.ok false) w) (hs : (answer .stopped w).1 = false)
    (hts : Tries answer name limit total (left + 1) (done + 1) ts x) :
    Tries answer name limit total (left + 2) done
      ((⟨.ask (.action name), .ok b⟩ :: (ps ++ [⟨.stopped, false⟩, retryNote name (done + 1) total])) :: ts) x

theorem attempt_runs (hact : AlwaysAnswers answer (.action name))
    (hconf : AlwaysAnswers answer (.actionConfirmed name)) (hstop : StopStays answer) (hb : Wait.seconds budget = .ok limit) (hl : limit.Representable)
    (total left done : Nat) (w : W) :
    ∃ ms x w' ts, (attempt name false budget total (left + 1) done).Runs answer w ms x w' ∧
      ms.map (·.reply answer) = ts.flatten ∧ Tries answer name limit total (left + 1) done ts x := by
  obtain ⟨b, hb'⟩ := hact w
  have hask := Runs.ask_eq hb'
  have hreply := Moment.reply_eq hb'
  obtain ⟨ps, y, w₁, hpoll, hpolled⟩ := Wait.poll_runs hconf hstop hb hl (answer (.ask (.action name)) w).2
  unfold attempt
  cases y with
  | error e =>
    refine ⟨_, _, _, _, hask.bind (.bind_error hpoll), ?_, .fault b hpolled⟩
    simp [hreply]
  | ok confirmed =>
    cases confirmed with
    | true =>
      refine ⟨_, _, _, _, hask.bind (hpoll.bind (.pure _ _)), ?_, .confirmed b hpolled⟩
      simp [hreply]
    | false =>
      cases hs : (answer .stopped w₁).1 with
      | true =>
        refine ⟨_, _, _, _, hask.bind (hpoll.bind ((Runs.stopped_eq hs).bind (.pure _ _))), ?_,
          .stopped b hpolled⟩
        simp [hreply, Moment.reply_eq hs]
      | false =>
        have hlook := Runs.stopped_eq hs
        cases left with
        | zero =>
          refine ⟨_, _, _, _, hask.bind (hpoll.bind (hlook.bind (.pure _ _))), ?_, .last b hpolled hs⟩
          simp [hreply, Moment.reply_eq hs]
        | succ left =>
          obtain ⟨ms, x, w', ts, hrun, hms, hts⟩ := attempt_runs hact hconf hstop hb hl total left (done + 1)
            (answer (retryNote name (done + 1) total).effect (answer .stopped w₁).2).2
          refine ⟨_, _, _, _, hask.bind (hpoll.bind (hlook.bind (.bind (.lift _ _) hrun))), ?_,
            .again b hpolled hs hts⟩
          simp [hreply, Moment.reply_eq hs, hms]
          rfl
termination_by left

/-! What the tries have in common, and how they differ. -/

/-- The action is used first of all, and then not again. -/
def OneUse (name : Value) (t : List Effect.Reply) : Prop :=
  ∃ b rest, t = ⟨.ask (.action name), .ok b⟩ :: rest ∧ ∀ r ∈ rest, r.effect ≠ .ask (.action name)

def Polls (name : Value) (t : List Effect.Reply) : Prop := ∃ r ∈ t, r.effect = .ask (.actionConfirmed name)

def Confirmed (name : Value) (t : List Effect.Reply) : Prop := ⟨.ask (.actionConfirmed name), .ok true⟩ ∈ t

def StopSeen (t : List Effect.Reply) : Prop := ⟨.stopped, true⟩ ∈ t

def warnings (t : List Effect.Reply) : List Effect.Reply := t.filter (·.effect.isWarning)

section Try

variable {ps tail : List Effect.Reply} {y : Except Fault Bool} {w : W} {b : Bool}
  (h : Polled answer (.actionConfirmed name) limit ps y w)

include h

theorem oneUse_try (ht : ∀ r ∈ tail, r.effect.isCall = false) :
    OneUse name (⟨.ask (.action name), .ok b⟩ :: (ps ++ tail)) := by
  refine ⟨b, _, rfl, fun r hr hu => ?_⟩
  rcases List.mem_append.1 hr with hr | hr
  · rcases h.effects hr with he | he | he <;> simp [hu, Effect.isSleep] at he
  · have := ht r hr
    simp [hu, Effect.isCall] at this

theorem polls_try : Polls name (⟨.ask (.action name), .ok b⟩ :: (ps ++ tail)) := by
  obtain ⟨r, hr, he⟩ := h.asked
  exact ⟨r, by simp [hr], he⟩

theorem warnings_try : warnings (⟨.ask (.action name), .ok b⟩ :: (ps ++ tail)) = warnings tail := by
  have hps : ps.filter (·.effect.isWarning) = [] := by
    refine List.filter_eq_nil_iff.2 fun r hr => ?_
    rcases h.effects hr with he | he | he
    · simp [he, Effect.isWarning]
    · simp [he, Effect.isWarning]
    · obtain ⟨t, ht⟩ := Effect.exists_of_isSleep he
      simp [ht, Effect.isWarning]
  rw [warnings, List.filter_cons_of_neg (by simp [Effect.isWarning]), List.filter_append, hps]
  rfl

end Try

theorem confirmed_try {ps tail : List Effect.Reply} {b : Bool} (ht : ∀ r ∈ tail, r.effect.isCall = false) :
    Confirmed name (⟨.ask (.action name), .ok b⟩ :: (ps ++ tail)) ↔ Confirmed name ps := by
  have hno : ¬ Confirmed name tail := fun hc => by
    have := ht _ hc
    simp [Effect.isCall] at this
  simp [Confirmed] at hno ⊢
  simp [hno]

theorem stopSeen_try {ps tail : List Effect.Reply} {b : Bool} :
    StopSeen (⟨.ask (.action name), .ok b⟩ :: (ps ++ tail)) ↔ StopSeen ps ∨ StopSeen tail := by
  simp [StopSeen]

/-- A try that got no response, after which number `k` is noted. -/
structure Unanswered (name : Value) (total k : Nat) (t : List Effect.Reply) : Prop where
  unconfirmed : ¬ Confirmed name t
  unstopped : ¬ StopSeen t
  warned : warnings t = [retryNote name k total]

/-- How the last try ends, with those before it: it is confirmed, or sees a stop, or there are no more. A try
for longer than can pass has no end without one of the others. -/
inductive TryEnd (name : Value) (limit : Binary64) (left : Nat) (earlier : Nat) (t : List Effect.Reply) :
    Except Fault Attempts → Prop
  | confirmed (hc : Confirmed name t) (hs : ¬ StopSeen t) : TryEnd name limit left earlier t (.ok .confirmed)
  | stopped (hc : ¬ Confirmed name t) (hs : StopSeen t) : TryEnd name limit left earlier t (.ok .stopped)
  | silent (hc : ¬ Confirmed name t) (hs : ¬ StopSeen t) (hl : limit.le Wait.reach) (h : earlier + 1 = left) :
    TryEnd name limit left earlier t (.ok .silent)
  | endless (hc : ¬ Confirmed name t) (hs : ¬ StopSeen t) (hl : limit.le Wait.reach = false) :
    TryEnd name limit left earlier t (.error .endless)

/-- All tries but the last got no response, and the last ended as it did. -/
structure Tried (name : Value) (limit : Binary64) (total left done : Nat) (front : List (List Effect.Reply))
    (last : List Effect.Reply) (x : Except Fault Attempts) : Prop where
  few : front.length + 1 ≤ left
  once : ∀ t ∈ front ++ [last], OneUse name t ∧ Polls name t
  unanswered : ∀ k t, front[k]? = some t → Unanswered name total (done + k + 1) t
  quiet : warnings last = []
  ending : TryEnd name limit left front.length last x

theorem TryEnd.earlier_try {left earlier : Nat} {t : List Effect.Reply}
    (h : TryEnd name limit left earlier t x) : TryEnd name limit (left + 1) (earlier + 1) t x := by
  cases h with
  | confirmed hc hs => exact .confirmed hc hs
  | stopped hc hs => exact .stopped hc hs
  | silent hc hs hl h => exact .silent hc hs hl (by omega)
  | endless hc hs hl => exact .endless hc hs hl

/-- There is but one try. -/
theorem Tried.single {ps tail : List Effect.Reply} {y : Except Fault Bool} {w : W} {b : Bool}
    (h : Polled answer (.actionConfirmed name) limit ps y w) (ht : ∀ r ∈ tail, r.effect = .stopped)
    (hend : TryEnd name limit (left + 1) 0 (⟨.ask (.action name), .ok b⟩ :: (ps ++ tail)) x) :
    Tried name limit total (left + 1) done [] (⟨.ask (.action name), .ok b⟩ :: (ps ++ tail)) x where
  few := by simp
  once t hmem := by
    obtain rfl := List.mem_singleton.1 hmem
    exact ⟨oneUse_try h fun r hr => by rw [ht r hr]; rfl, polls_try h⟩
  unanswered k t hk := by simp at hk
  quiet := by
    rw [warnings_try h]
    exact List.filter_eq_nil_iff.2 fun r hr => by simp [ht r hr, Effect.isWarning]
  ending := hend

theorem Tries.tried (h : Tries answer name limit total left done ts x) :
    ∃ front last, ts = front ++ [last] ∧ Tried name limit total left done front last x := by
  have hcall : ∀ s, ∀ r ∈ [(⟨.stopped, s⟩ : Effect.Reply)], r.effect.isCall = false := by simp [Effect.isCall]
  induction h with
  | @confirmed left done b ps w h =>
    obtain ⟨hyes, hstop⟩ := h.ends.1 rfl
    rw [← List.append_nil ps]
    refine ⟨[], _, rfl, .single h (by simp) (.confirmed ?_ ?_)⟩
    · exact (confirmed_try (by simp)).2 hyes
    · exact stopSeen_try.not.2 fun hs => hs.elim hstop (by simp [StopSeen])
  | @fault left done b ps e w h =>
    obtain ⟨rfl, hno, hstop, hfar⟩ := h.ends.2.2 e rfl
    rw [← List.append_nil ps]
    refine ⟨[], _, rfl, .single h (by simp) (.endless ?_ ?_ hfar)⟩
    · exact (confirmed_try (by simp)).not.2 hno
    · exact stopSeen_try.not.2 fun hs => hs.elim hstop (by simp [StopSeen])
  | @stopped left done b ps w h =>
    obtain ⟨hno, -⟩ := h.ends.2.1 rfl
    refine ⟨[], _, rfl, .single h (by simp) (.stopped ?_ ?_)⟩
    · exact (confirmed_try (hcall true)).not.2 hno
    · exact stopSeen_try.2 (.inr List.mem_cons_self)
  | @last done b ps w h hs =>
    obtain ⟨hno, hstop, hl⟩ := h.unanswered hs
    refine ⟨[], _, rfl, .single h (by simp) (.silent ?_ ?_ hl rfl)⟩
    · exact (confirmed_try (hcall false)).not.2 hno
    · exact stopSeen_try.not.2 fun hs => hs.elim hstop (by simp [StopSeen])
  | @again left done b ps w ts x h hs hts ih =>
    obtain ⟨front, last, rfl, hfew, honce, hfront, hquiet, hending⟩ := ih
    obtain ⟨hno, hstop, -⟩ := h.unanswered hs
    have htail : ∀ r ∈ [(⟨.stopped, false⟩ : Effect.Reply), retryNote name (done + 1) total],
        r.effect.isCall = false := by simp [retryNote, Effect.isCall]
    have hfirst : Unanswered name total (done + 1)
        (⟨.ask (.action name), .ok b⟩ :: (ps ++ [⟨.stopped, false⟩, retryNote name (done + 1) total])) := by
      refine ⟨(confirmed_try htail).not.2 hno, ?_, ?_⟩
      · exact stopSeen_try.not.2 fun hs => hs.elim hstop (by simp [StopSeen, retryNote])
      · rw [warnings_try h]
        rfl
    refine ⟨_ :: front, last, rfl, by simpa using hfew, ?_, ?_, hquiet, hending.earlier_try⟩
    · exact List.forall_mem_cons.2 ⟨⟨oneUse_try h htail, polls_try h⟩, honce⟩
    · rintro (_ | k) t hk
      · obtain rfl := Option.some.inj hk
        exact hfirst
      · have := hfront k t hk
        rwa [show done + 1 + k + 1 = done + (k + 1) + 1 by omega] at this

/-! The whole line. -/

/-- What follows the tries. -/
def concludeAction (i : Instruction) : Attempts → Act Unit
  | .stopped => pure ()
  | .confirmed => echo i ("Action: " ++ i.args.plain)
  | .silent => fail .actionTimeout ("Did not receive a timely response to " ++ i.args.quoted)

theorem runAction_eq {settings : Settings} {i : Instruction} {b : Binary64} {retries : Nat}
    (hb : settings.defaultWaitBudget = .ok b) (hr : settings.maxTimeoutRetries = .ok retries) :
    runAction settings i = attempt i.args (i.has "unsafe") (maxWaitOr i b) (retries + 1) (retries + 1) 0 >>=
      concludeAction i := by
  unfold runAction
  rw [hb, hr]
  rfl

theorem attempt_unconfirmed (hact : AlwaysAnswers answer (.action name)) (budget : Value)
    (total left done : Nat) (w : W) :
    ∃ b w', (attempt name true budget total (left + 1) done).Runs answer w [⟨.ask (.action name), w⟩]
      (.ok .confirmed) w' ∧ (answer (.ask (.action name)) w).1 = .ok b := by
  obtain ⟨b, hb⟩ := hact w
  unfold attempt
  exact ⟨b, _, (Runs.ask_eq hb).bind (.pure _ _), hb⟩

/-- The line has no condition, or an empty one. -/
def Ungated (i : Instruction) : Prop := ∀ v, i.modifier? "condition" = some v → v.truthy = false

theorem conditionMet_ungated {i : Instruction} (h : Ungated i) (w : W) :
    (conditionMet i).Runs answer w [] (.ok true) w := by
  unfold conditionMet
  cases hv : i.modifier? "condition" with
  | none => exact .pure true w
  | some v =>
    simp only [h v hv, Bool.not_false, ↓reduceIte]
    exact .pure true w

/-- The line is completed, unless it is its wait that cannot be waited. -/
def Completes (answer : (e : Effect) → W → e.Answer × W) (i : Instruction) (x : Except Fault Outcome) :
    Prop :=
  x = .ok .completed ∨ ∃ w e, (trailingWait i).result answer w = .error e ∧ x = .error e

/-! The time to wait for a response. -/

@[simp] theorem seconds_number (x : Binary64) : Wait.seconds (.number x) = .ok x := by
  cases x with
  | infinite s => cases s <;> rfl
  | _ => rfl

theorem getNumber_representable {settings : Settings} {sect key : String} {fallback x : Binary64}
    (hf : fallback.Representable) (h : settings.getNumber sect key fallback = .ok x) (hx : x.isFinite) :
    x.Representable := by
  unfold Settings.getNumber Settings.getWith Settings.readNumber at h
  split at h
  · split at h
    · next hy =>
      obtain rfl := Except.ok.inj h
      exact Binary64.number?_representable hy hx
    · nomatch h
  · obtain rfl := Except.ok.inj h
    exact hf

theorem defaultWaitBudget_representable {settings : Settings} {b : Binary64}
    (h : settings.defaultWaitBudget = .ok b) (hb : b.isFinite) : b.Representable := by
  unfold Settings.defaultWaitBudget at h
  cases hx : settings.getNumber "TIMING" "default_wait_budget" Limits.defaultWaitBudget with
  | error e =>
    rw [hx] at h
    nomatch h
  | ok x =>
    rw [hx] at h
    obtain rfl := Except.ok.inj h
    unfold Binary64.max at hb ⊢
    split
    · next hlt =>
      rw [if_pos hlt] at hb
      exact getNumber_representable (Binary64.ofInt_representable (by decide +kernel)) hx hb
    · exact ⟨false, 0, rfl, Binary64.twoTo_pos _, dvd_zero _⟩

theorem number?_of_readMaxWait {raw : Option String} {x : Binary64}
    (h : ModifierGrammar.readMaxWait raw = .ok x) : Numeral.number? (raw.getD "") = some x := by
  unfold ModifierGrammar.readMaxWait at h
  split at h
  · nomatch h
  · next y hy =>
    split at h
    · nomatch h
    · rw [hy, Except.ok.inj h]

/-- A limit that was read from a tag or from the settings is a number as it should be, if it is finite. -/
theorem limit_representable {settings : Settings} {i : Instruction} {b limit : Binary64}
    (hb : settings.defaultWaitBudget = .ok b)
    (hi : ∀ v, i.modifier? "maxwait" = some v → ∃ raw, ModifierGrammar.maxWait.read raw = .ok v)
    (hlimit : Wait.seconds (maxWaitOr i b) = .ok limit) (hf : limit.isFinite) : limit.Representable := by
  unfold maxWaitOr at hlimit
  cases hv : i.modifier? "maxwait" with
  | none =>
    rw [hv, Option.getD_none, seconds_number] at hlimit
    obtain rfl := Except.ok.inj hlimit
    exact defaultWaitBudget_representable hb hf
  | some v =>
    obtain ⟨raw, hraw⟩ := hi v hv
    obtain ⟨x, hx, rfl⟩ : ∃ x, ModifierGrammar.readMaxWait raw = .ok x ∧ v = .number x := by
      unfold ModifierGrammar.read at hraw
      cases hx : ModifierGrammar.readMaxWait raw with
      | error e => simp [hx, Except.map] at hraw
      | ok x => exact ⟨x, rfl, by simpa [hx, Except.map, eq_comm] using hraw⟩
    rw [hv, Option.getD_some, seconds_number] at hlimit
    obtain rfl := Except.ok.inj hlimit
    exact Binary64.number?_representable (number?_of_readMaxWait hx) hf

/-- How often an action is used at most: once, and once more for each of the retries that are set. -/
def mostTries (retries : Int) : Nat := 1 + (max 0 (min Limits.maxTimeoutRetries retries)).toNat

theorem maxTimeoutRetries_eq {settings : Settings} {n : Int}
    (hn : settings.getInteger "TIMING" "max_timeout_retries" 0 = .ok n) :
    ∃ retries, settings.maxTimeoutRetries = .ok retries ∧ retries + 1 = mostTries n := by
  refine ⟨_, by rw [Settings.maxTimeoutRetries, hn]; rfl, ?_⟩
  simp only [mostTries]
  omega

variable {settings : Settings} {i : Instruction} {command : Act Unit} {w w₁ : W} {body : List (Moment W)}

/-- After a command that went through there is only the wait. -/
theorem completes_of_runs (hh : handler? settings i = some command) (hgate : Ungated i)
    (hrun : command.Runs answer w body (.ok ()) w₁) :
    ∃ rest, (execute settings i).moments answer w = body ++ rest ∧ (∀ m ∈ rest, m.effect.isWaiting) ∧
      Completes answer i ((execute settings i).result answer w) := by
  obtain ⟨rest, z, w₂, hw⟩ := Runs.exists_run answer (trailingWait i) w₁
  have hall := execute_went_through hh (conditionMet_ungated hgate w) hrun hw
  refine ⟨rest, hall.moments, fun m hm => (trailingWait_waits i).moments (hw.moments ▸ hm), ?_⟩
  have hresult : (execute settings i).result answer w = z.map fun _ => .completed := hall.result_eq
  rw [hresult]
  cases z with
  | ok u => exact .inl rfl
  | error e => exact .inr ⟨w₁, e, hw.result_eq, rfl⟩

/-- Nothing but reports that all is well, and waiting. -/
def Untroubled (rs : List Effect.Reply) : Prop :=
  ∀ r ∈ rs, r.effect.isCall = false ∧ r.effect.isWarning = false

/-- A line goes through if a try was confirmed, and if a stop was seen. -/
theorem completes_of_tries {tries : Act Attempts}
    (hh : handler? settings i = some (tries >>= concludeAction i)) (hgate : Ungated i) {a : Attempts} (hrun : tries.Runs answer w body (.ok a) w₁) (ha : a ≠ .silent) :
    ∃ rest, (execute settings i).replies answer w = body.map (·.reply answer) ++ rest ∧ Untroubled rest ∧
      Completes answer i ((execute settings i).result answer w) := by
  obtain ⟨notes, w₂, hend, hnotes⟩ : ∃ notes w₂, (concludeAction i a).Runs answer w₁ notes (.ok ()) w₂ ∧
      ∀ m ∈ notes, ∃ message, m.effect = .log .info message := by
    cases a with
    | confirmed =>
      obtain ⟨notes, w₂, hecho, hlog⟩ := echo_runs answer i ("Action: " ++ i.args.plain) w₁
      exact ⟨notes, w₂, hecho, fun m hm => ⟨_, hlog m hm⟩⟩
    | stopped => exact ⟨[], w₁, .pure () w₁, by simp⟩
    | silent => exact absurd rfl ha
  obtain ⟨waits, hms, hwaits, hcompletes⟩ := completes_of_runs hh hgate (hrun.bind hend)
  refine ⟨(notes ++ waits).map (·.reply answer), ?_, ?_, hcompletes⟩
  · show ((execute settings i).moments answer w).map _ = _
    rw [hms, List.append_assoc, List.map_append]
  · rintro r hr
    obtain ⟨m, hm, rfl⟩ := List.mem_map.1 hr
    rcases List.mem_append.1 hm with hm | hm
    · obtain ⟨message, he⟩ := hnotes m hm
      simp [Moment.reply, he, Effect.isCall, Effect.isWarning]
    · have he := hwaits m hm
      exact ⟨Effect.isCall_of_isWaiting he, Effect.isWarning_of_isWaiting he⟩

/-- A line fails if its tries did, or if none was answered. -/
theorem fails_of_tries {tries : Act Attempts} (hh : handler? settings i = some (tries >>= concludeAction i))
    (hgate : Ungated i) :
    (tries.Runs answer w body (.ok .silent) w₁ → (execute settings i).Runs answer w body
      (.ok (.timedOut ("Did not receive a timely response to " ++ i.args.quoted))) w₁) ∧
    (tries.Runs answer w body (.error .endless) w₁ →
      (execute settings i).Runs answer w body (.error .endless) w₁) := by
  refine ⟨fun hrun => ?_, fun hrun => ?_⟩
  · have hfail : (tries >>= concludeAction i).Runs answer w (body ++ []) _ w₁ := hrun.bind (.throw _ w₁)
    rw [List.append_nil] at hfail
    have hall := execute_failed hh (conditionMet_ungated hgate w) hfail
    simpa [Fault.failed, settled, outcomeOf] using hall
  · exact execute_failed hh (conditionMet_ungated hgate w) hrun.bind_error

/-- What a line comes to, by its last try: confirmed or not, with a stop or without. -/
structure Concluded (answer : (e : Effect) → W → e.Answer × W) (i : Instruction) (limit : Binary64)
    (most earlier : Nat) (last : List Effect.Reply) (x : Except Fault Outcome) : Prop where
  confirmed : Confirmed i.args last → Completes answer i x
  stopped : ¬ Confirmed i.args last → StopSeen last → Completes answer i x
  timedOut : ¬ Confirmed i.args last → ¬ StopSeen last → limit.le Wait.reach → earlier + 1 = most ∧
    x = .ok (.timedOut ("Did not receive a timely response to " ++ i.args.quoted))
  endless : ¬ Confirmed i.args last → ¬ StopSeen last → limit.le Wait.reach = false → x = .error .endless

theorem concluded_of_ending {tries : Act Attempts}
    (hh : handler? settings i = some (tries >>= concludeAction i)) (hgate : Ungated i)
    {a : Except Fault Attempts} (hrun : tries.Runs answer w body a w₁) {most earlier : Nat}
    {last : List Effect.Reply} (hend : TryEnd i.args limit most earlier last a) :
    ∃ rest, (execute settings i).replies answer w = body.map (·.reply answer) ++ rest ∧ Untroubled rest ∧
      Concluded answer i limit most earlier last ((execute settings i).result answer w) := by
  cases hend with
  | confirmed hc hs =>
    obtain ⟨rest, hreplies, hcalm, hcompletes⟩ := completes_of_tries hh hgate hrun (by simp)
    exact ⟨rest, hreplies, hcalm, fun _ => hcompletes, (absurd hc ·), (absurd hc ·), (absurd hc ·)⟩
  | stopped hc hs =>
    obtain ⟨rest, hreplies, hcalm, hcompletes⟩ := completes_of_tries hh hgate hrun (by simp)
    exact ⟨rest, hreplies, hcalm, (absurd · hc), fun _ _ => hcompletes, fun _ => (absurd hs ·),
      fun _ => (absurd hs ·)⟩
  | silent hc hs hl h =>
    have hall := (fails_of_tries hh hgate).1 hrun
    refine ⟨[], ?_, by simp [Untroubled], (absurd · hc), fun _ => (absurd · hs),
      fun _ _ _ => ⟨h, hall.result_eq⟩, fun _ _ hl' => by simp [hl] at hl'⟩
    rw [List.append_nil]
    exact hall.replies_eq
  | endless hc hs hl =>
    have hall := (fails_of_tries hh hgate).2 hrun
    refine ⟨[], ?_, by simp [Untroubled], (absurd · hc), fun _ => (absurd · hs),
      fun _ _ hl' => by simp [hl] at hl', fun _ _ _ => hall.result_eq⟩
    rw [List.append_nil]
    exact hall.replies_eq

/-- An action without a condition is used once for each try, and never more often than is set. A try that is
confirmed completes the line, and one that sees a stop ends it without a failure; with neither the tries go on
to the last, and then the line has timed out. -/
theorem action_retried (hc : i.command = "action") (hgate : Ungated i) {n : Int}
    (hn : settings.getInteger "TIMING" "max_timeout_retries" 0 = .ok n) {b limit : Binary64}
    (hb : settings.defaultWaitBudget = .ok b) (hlimit : Wait.seconds (maxWaitOr i b) = .ok limit)
    (hl : limit.Representable) (hact : AlwaysAnswers answer (.action i.args))
    (hconf : AlwaysAnswers answer (.actionConfirmed i.args)) (hstop : StopStays answer) (w : W) :
    ∃ front last rest, (execute settings i).replies answer w = (front ++ [last]).flatten ++ rest ∧
      Untroubled rest ∧ front.length + 1 ≤ mostTries n ∧ (∀ t ∈ front ++ [last], OneUse i.args t) ∧
      warnings last = [] ∧
      (i.has "unsafe" → front = [] ∧ ¬ Polls i.args last ∧
        Completes answer i ((execute settings i).result answer w)) ∧
      (i.has "unsafe" = false → (∀ t ∈ front ++ [last], Polls i.args t) ∧
        (∀ k t, front[k]? = some t → Unanswered i.args (mostTries n) (k + 1) t) ∧
        Concluded answer i limit (mostTries n) front.length last ((execute settings i).result answer w)) := by
  have hh : handler? settings i = some (runAction settings i) := by simp [handler?, hc]
  obtain ⟨retries, hr, hmost⟩ := maxTimeoutRetries_eq hn
  rw [runAction_eq hb hr] at hh
  rw [← hmost]
  cases hsure : i.has "unsafe" with
  | true =>
    rw [hsure] at hh
    obtain ⟨b', w₁, hrun, hb'⟩ := attempt_unconfirmed hact (maxWaitOr i b) (retries + 1) retries 0 w
    obtain ⟨rest, hreplies, hcalm, hcompletes⟩ := completes_of_tries hh hgate hrun (by simp)
    refine ⟨[], [⟨.ask (.action i.args), .ok b'⟩], rest, ?_, hcalm, by simp, ?_, rfl,
      fun _ => ⟨rfl, by simp [Polls], hcompletes⟩, by simp⟩
    · rw [hreplies]
      simp [Moment.reply_eq hb']
    · rintro t ht
      obtain rfl := List.mem_singleton.1 ht
      exact ⟨b', [], rfl, by simp⟩
  | false =>
    rw [hsure] at hh
    obtain ⟨ms, a, w₁, ts, hrun, hms, hts⟩ := attempt_runs hact hconf hstop hlimit hl (retries + 1) retries 0 w
    obtain ⟨front, last, rfl, htried⟩ := hts.tried
    obtain ⟨rest, hreplies, hcalm, hconcluded⟩ := concluded_of_ending hh hgate hrun htried.ending
    refine ⟨front, last, rest, hms ▸ hreplies, hcalm, htried.few, fun t ht => (htried.once t ht).1,
      htried.quiet, by simp, fun _ => ⟨fun t ht => (htried.once t ht).2, fun k t hk => ?_, hconcluded⟩⟩
    simpa using htried.unanswered k t hk

/-! A line to try, with one retry. -/

def tenth : Binary64 := .ofDecimal false 1 (-1)

def groundwork : Instruction where
  command := "action"
  rawArgs := "Groundwork"
  args := .text "Groundwork"
  modifiers := [("maxwait", .number tenth)]
  text := "/ac Groundwork <maxwait.0.1>"
  line := 1

def timing (key value : String) : Settings :=
  ⟨(Ini.empty.addSection "TIMING").set "TIMING" key value, none⟩

theorem groundwork_ungated : Ungated groundwork := fun v h => by
  have hnone : groundwork.modifier? "condition" = none := rfl
  simp [hnone] at h

theorem trial_stopStays : StopStays Trial.respond := by
  intro e w h
  have hstop : w.stopIn = some 0 := by simpa [Trial.respond] using h
  cases e <;> simp [Trial.respond, hstop]

/-- The first try gets no response, the second does. -/
def slow : Trial := { Trial.stocked with answers := [true, false, false, false] }

theorem groundwork_retried : groundwork.command = "action" ∧ Ungated groundwork ∧
    (timing "max_timeout_retries" "1").getInteger "TIMING" "max_timeout_retries" 0 = .ok 1 ∧
    (timing "max_timeout_retries" "1").defaultWaitBudget = .ok (.ofInt 10) ∧
    Wait.seconds (maxWaitOr groundwork (.ofInt 10)) = .ok tenth ∧ tenth.Representable ∧
    AlwaysAnswers Trial.respond (.action groundwork.args) ∧
    AlwaysAnswers Trial.respond (.actionConfirmed groundwork.args) ∧ StopStays Trial.respond ∧
    ((execute (timing "max_timeout_retries" "1") groundwork).result Trial.respond slow).toOption =
      some .completed ∧
    ∃ front last rest, (execute (timing "max_timeout_retries" "1") groundwork).replies Trial.respond slow =
      (front ++ [last]).flatten ++ rest ∧ front.length + 1 ≤ 2 ∧
        ∀ t ∈ front ++ [last], OneUse groundwork.args t := by
  have hread : (timing "max_timeout_retries" "1").getInteger "TIMING" "max_timeout_retries" 0 = .ok 1 := by
    decide +kernel
  have hbudget : (timing "max_timeout_retries" "1").defaultWaitBudget = .ok (.ofInt 10) := by decide +kernel
  have hlimit : Wait.seconds (maxWaitOr groundwork (.ofInt 10)) = .ok tenth := seconds_number tenth
  have htenth : tenth.Representable := Binary64.ofDecimal_representable (by decide +kernel)
  have hact : AlwaysAnswers Trial.respond (.action groundwork.args) := fun w => ⟨_, rfl⟩
  have hconf : AlwaysAnswers Trial.respond (.actionConfirmed groundwork.args) := fun w => ⟨_, rfl⟩
  obtain ⟨front, last, rest, hreplies, -, hfew, honce, -⟩ := action_retried rfl groundwork_ungated hread hbudget
    hlimit htenth hact hconf trial_stopStays slow
  exact ⟨rfl, groundwork_ungated, hread, hbudget, hlimit, htenth, hact, hconf, trial_stopStays,
    by decide +kernel, front, last, rest, hreplies, hfew, honce⟩

/-- A time that cannot be read from the settings ends the line before the action is used, even where a tag
replaces it. -/
theorem action_unread (hc : i.command = "action") (hgate : Ungated i) {e : OptionError}
    (he : settings.defaultWaitBudget = .error e) (w : W) :
    (execute settings i).Runs answer w [] (.error (.option e)) w := by
  have hh : handler? settings i = some (runAction settings i) := by simp [handler?, hc]
  have hrun : (runAction settings i).Runs answer w [] (.error (.option e)) w := by
    unfold runAction
    rw [he]
    exact (Runs.done (.error (.option e)) w).bind_error
  exact execute_failed hh (conditionMet_ungated hgate w) hrun

/-- The time to wait for a response is read even where a tag says another. -/
theorem groundwork_unused : Ungated groundwork ∧
    (timing "default_wait_budget" "ten").getInteger "TIMING" "max_timeout_retries" 0 = .ok 0 ∧
    groundwork.modifier? "maxwait" = some (.number tenth) ∧
    AlwaysAnswers Trial.respond (.action groundwork.args) ∧
    AlwaysAnswers Trial.respond (.actionConfirmed groundwork.args) ∧
    (execute (timing "default_wait_budget" "ten") groundwork).replies Trial.respond Trial.stocked = [] ∧
    (execute (timing "default_wait_budget" "ten") groundwork).result Trial.respond Trial.stocked =
      .error (.option (.notNumber "ten")) := by
  have hread : (timing "default_wait_budget" "ten").defaultWaitBudget = .error (.notNumber "ten") := by
    decide +kernel
  have hrun : (execute (timing "default_wait_budget" "ten") groundwork).Runs Trial.respond Trial.stocked _ _ _ :=
    action_unread rfl groundwork_ungated hread Trial.stocked
  exact ⟨groundwork_ungated, by decide +kernel, rfl, fun w => ⟨_, rfl⟩, fun w => ⟨_, rfl⟩,
    hrun.replies_eq, hrun.result_eq⟩

end Execution

end Macros
