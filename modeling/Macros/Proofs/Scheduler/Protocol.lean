import Macros.Proofs.Scheduler.Awaited
import Macros.Proofs.Scheduler.Planned

/-!
The driver keeps to the exchange with its scripts, whatever comes in and whatever the client does. What
it writes down for a frame after a line or a step of its script is what is due next.
-/

namespace Macros

open Session Talk

variable {σ τ : Type}

namespace Session

variable {ρ : Rules τ} {A A' : Stand τ} {n m : Nat} {s s' : Session σ τ} {es : List Event}
  {o : Oracle σ τ} {b : Bridge τ}
  {id : Nat} {t₀ : Talk τ} {w₀ : Work τ}

/-! Native macros. -/

theorem advanceNative_keeps (hu : ρ.settings.Usable) (hb : b.interpreter = ρ.interpreter) (hs : s.Sound)
    {f : Frame τ} {w : NativeWork} (h : s.Keeps ρ (Stand.fitting ρ) 0) (hf : f ∈ s.stack)
    (hw : f.work = .native w) (he : (s.advanceNative (.ofOracle b o) b f w).1 ≠ .error .endless) :
    (s.advanceNative (.ofOracle b o) b f w).2.Keeps ρ (Stand.fitting ρ) 0 := by
  have h0 := h.hold hf
  have ht := h.frames f hf
  rw [hw] at h0 ht
  generalize hover : read ρ f.id s.journal = t at h0 ht
  cases ht
  unfold advanceNative at he ⊢
  split
  · exact h.pop hf _
  · next i hi =>
    have hs1 : (s.stepOver f.id).Sound := Changes.sound (stepOver_spec (o := o) hs hf hw hi).1 hs
    have h1 := (h0.held_native fun w => { w with cursor := w.cursor + 1 }).emitStatus
    simp only [hi] at he
    rcases hp : (s.stepOver f.id).perform (.ofOracle b o) b f i with ⟨r, u⟩
    have h2 := perform_keeps hb hs1 h1 (.inl rfl) hp
    unfold stepOver at hp
    dsimp only
    rw [hp] at he ⊢
    rcases h2 with rfl | ⟨rfl, h2⟩ | ⟨x, rfl, h2⟩
    · exact absurd rfl he
    · exact afterNative_keeps hu h2 _ i none
    · exact afterNative_keeps hu h2 _ i (some x)

/-! Scripts. -/

/-- The script waits for the answer to a line. -/
structure Listens (w : ScriptWork τ) : Prop where
  line : w.pendingLine = none
  started : w.run.started
  finished : w.run.finished = false
  stepping : w.run.stepping = false

theorem Listens.fits {w : ScriptWork τ} (h : Listens w) (v : Value) :
    Fits ρ (due w.run.script w.steps v) (.script { w with pendingResult := v }) := by
  have := Fits.due (ρ := ρ) { w with pendingResult := v } h.line h.finished h.stepping
  simpa [h.started] using this

/-- An answer is due after an outcome, unless that stops the macro. -/
theorem afterLine_eq {x : Outcome} (h : x.ok ∨ ρ.settings.isStopWorthy x = .ok false) (script : τ)
    (count : Nat) : afterLine ρ script count x = due script count (.flag x.ok) := by
  unfold afterLine
  cases hx : x.ok with
  | true => rfl
  | false =>
    rw [hx] at h
    simp [h.resolve_left Bool.false_ne_true]

theorem afterScript_keeps (hu : ρ.settings.Usable) {w : ScriptWork τ} (hw : Listens w) {line : String}
    {i : Instruction} (hr : Line.read ρ.registry line (w.steps - 1) = .ok (some i)) {x : LineResult}
    (h : s.Keeps ρ (Stand.held ρ id
      (match x with
        | none => running w.run.script w.steps i
        | some x => afterLine ρ w.run.script w.steps x) (.script w)) n) :
    (s.afterScript id line i x).2.Keeps ρ (Stand.fitting ρ) 0 := by
  unfold afterScript
  cases x with
  | none =>
    dsimp only at h ⊢
    split
    · refine Keeps.enterNotReady ((h.held_script fun w => { w with pendingLine := some line }).release
        fun _ => ?_)
      exact Fits.running { w with pendingLine := some line } line i rfl hr hw.started hw.finished
        hw.stepping
    · next ho => exact h.release fun ho' => absurd ho' ho
  | some x =>
    dsimp only at h ⊢
    have h1 := h.held_script fun w => { w with pendingResult := .flag x.ok }
    have h2 : ∀ {r s'}, settle (s.modifyScript id fun w => { w with pendingResult := .flag x.ok }) id i x =
        (r, s') → s'.Keeps ρ (Stand.fitting ρ) 0 := fun hr =>
      (settle_keeps hu h1 i (fun hx => by rw [afterLine_eq hx]; exact hw.fits _) hr).2
    split
    · next hr => exact h2 hr
    · next hr => exact h2 hr
    · next hr =>
      split
      · exact (h2 hr).loopFlags id
      · exact h2 hr

/-- A line that has been yielded, run for the first time or again. -/
theorem scriptLine_keeps (hu : ρ.settings.Usable) (hb : b.interpreter = ρ.interpreter) (hs : s.Sound)
    {f : Frame τ} {w : ScriptWork τ} (hw : Listens w) {line : String}
    (h : s.Keeps ρ (Stand.held ρ f.id (yield ρ w.run.script w.steps line) (.script w)) (f.id + 1))
    (he : (s.scriptLine (.ofOracle b o) b f line (w.steps - 1)).1 ≠ .error .endless) :
    (s.scriptLine (.ofOracle b o) b f line (w.steps - 1)).2.Keeps ρ (Stand.fitting ρ) 0 := by
  have hs1 : s.emitStatus.Sound := hs.of_eq rfl rfl rfl rfl
  have h1 := h.emitStatus
  have hreg : s.emitStatus.registry = ρ.registry := h.registry
  unfold scriptLine at he ⊢
  dsimp only at he ⊢
  rw [hreg] at he ⊢
  unfold yield at h1
  split
  · next hr =>
    rw [hr] at h1
    exact ((h1.log _ _).held_script fun w => { w with pendingResult := .flag false }).release fun _ =>
      hw.fits _
  · next hr =>
    rw [hr] at h1
    exact (h1.held_script fun w => { w with pendingResult := .flag true }).release fun _ => hw.fits _
  · next i hr =>
    rw [hr] at h1 he
    dsimp only at h1 he
    rcases hp : s.emitStatus.perform (.ofOracle b o) b f i with ⟨r, u⟩
    have h2 := perform_keeps hb hs1 h1 (.inr ⟨_, _, rfl⟩) hp
    rw [hp] at he
    rcases h2 with rfl | ⟨rfl, h2⟩ | ⟨x, rfl, h2⟩
    · exact absurd rfl he
    · exact afterScript_keeps hu hw hr (x := none) h2
    · exact afterScript_keeps hu hw hr (x := some x) h2

/-- A step of a script that is not over: the value that is due is sent. -/
theorem scriptStep_keeps (hb : b.interpreter = ρ.interpreter) (hs : s.Sound) {f : Frame τ}
    {w : ScriptWork τ} (hf : f ∈ s.stack) (hfin : w.run.finished = false)
    (hstep : w.run.stepping = false)
    (h : s.Keeps ρ (Stand.held ρ f.id (due w.run.script w.steps
      (if w.run.started then w.pendingResult else .null)) (.script w)) (f.id + 1)) :
    let a := ρ.interpreter.send w.run.script (if w.run.started then w.pendingResult else .null)
    let r := { w.run with started := true, stepping := true }.finish a.signal
    (s.scriptStep (.ofOracle b o) b f w).1 = r.2 ∧
      (s.scriptStep (.ofOracle b o) b f w).2.Keeps ρ
        (Stand.held ρ f.id (afterStep ρ w.steps a.signal) (.script { w with run := r.1 })) (f.id + 1) := by
  intro a r
  have hbegin : w.run.begin b.interpreter w.pendingResult =
      ({ w.run with started := true, stepping := true }, .under a) := by
    simp [ScriptRun.begin, hfin, hstep, hb, a]
  unfold scriptStep
  rw [hbegin]
  refine ⟨rfl, ?_⟩
  let v := if w.run.started then w.pendingResult else .null
  have hnext : next ρ f.id (due w.run.script w.steps v) (.sent f.id v) = afterStep ρ w.steps a.signal :=
    if_pos rfl
  have hown : s.owns f.id := (owns_iff s f.id).2 ⟨f, hf, rfl⟩
  have h1 := h.held_own h.le (e := .sent f.id v) rfl (fun _ => ⟨_, _, rfl⟩)
    (fun ho => by rw [hown] at ho; contradiction) (if_pos rfl)
    (by rw [hnext]; exact isOn_send (ρ := ρ) (t := due w.run.script w.steps v) v rfl)
  rw [hnext] at h1
  have h2 := h1.held_script fun u => { u with run := { w.run with started := true, stepping := true } }
  have hs2 := Changes.sound (script_change (o := o) (s.record (.sent f.id v)) f.id
    fun u => { u with run := { w.run with started := true, stepping := true } }) (hs.of_eq rfl rfl rfl rfl)
  have h3 := (admits_keeps (Stand.held_opens ρ f.id _ _) hb o).hostCalls a.hostCalls hs2 h2
  exact h3.held_script fun u => { u with run := (u.run.finish a.signal).1 }

theorem advanceScript_keeps (hu : ρ.settings.Usable) (hb : b.interpreter = ρ.interpreter) (hs : s.Sound)
    {f : Frame τ} {w : ScriptWork τ} (h : s.Keeps ρ (Stand.fitting ρ) 0) (hf : f ∈ s.stack)
    (hw : f.work = .script w) (he : (s.advanceScript (.ofOracle b o) b f w).1 ≠ .error .endless) :
    (s.advanceScript (.ofOracle b o) b f w).2.Keeps ρ (Stand.fitting ρ) 0 := by
  have h0 := h.hold hf
  have ht := h.frames f hf
  rw [hw] at h0 ht
  generalize hread : read ρ f.id s.journal = t at h0 ht
  unfold advanceScript at he ⊢
  cases ht with
  | running _ line i hp hr hst hfin hstep =>
    rw [hp] at he ⊢
    dsimp only at he ⊢
    have hlistens : Listens { w with pendingLine := none } := ⟨rfl, hst, hfin, hstep⟩
    have hline : running w.run.script w.steps i = yield ρ w.run.script w.steps line := by
      rw [yield, hr]
    rw [hline] at h0
    exact scriptLine_keeps hu hb (Changes.sound (script_change (o := o) s f.id _) hs) hlistens
      (h0.held_script fun w => { w with pendingLine := none }) he
  | due _ hp hfin hstep =>
    rw [hp] at he ⊢
    dsimp only at he ⊢
    obtain ⟨hr, h1⟩ := scriptStep_keeps (o := o) hb hs hf hfin hstep h0
    have hs1 := Changes.sound (scriptStep_spec (o := o) (b := b) hs hf w).1 hs
    rcases hx : s.scriptStep (.ofOracle b o) b f w with ⟨r, u⟩
    rw [hx] at hr h1 hs1 he
    generalize (ρ.interpreter.send w.run.script
      (if w.run.started then w.pendingResult else .null)).signal = signal at hr h1
    cases signal with
    | yielded v script =>
      obtain rfl : r = .ok (some (ScriptRun.lineOf v)) := hr
      let run : ScriptRun τ :=
        { w.run with script := script, started := true, stepping := false, yields := w.run.yields + 1 }
      have hlistens : Listens { w with run := run, steps := w.steps + 1 } := ⟨hp, rfl, hfin, rfl⟩
      have h2 : (u.modifyScript f.id fun w => { w with steps := w.steps + 1 }).Keeps ρ
          (Stand.held ρ f.id (yield ρ script (w.steps + 1) (ScriptRun.lineOf v))
            (.script { w with run := run, steps := w.steps + 1 })) (f.id + 1) :=
        h1.held_script fun w => { w with steps := w.steps + 1 }
      have hs2 := Changes.sound (script_change (o := o) u f.id fun w => { w with steps := w.steps + 1 }) hs1
      have hnum : ((w.steps + 1 : Nat) : Int) - 1 = w.steps := by omega
      have h3 := scriptLine_keeps (o := o) hu hb hs2 hlistens h2
      rw [hnum] at h3
      exact h3 he
    | returned =>
      obtain rfl : r = .ok none := hr
      exact h1.popIfOwned _
    | failed why =>
      obtain rfl : r = .error (why.text w.run.name) := hr
      exact (h1.log _ _).popIfOwned _

/-! Operations. -/

theorem advance_keeps (hu : ρ.settings.Usable) (hb : b.interpreter = ρ.interpreter) (hs : s.Sound)
    (h : s.Keeps ρ (Stand.fitting ρ) 0) (he : (s.advance (.ofOracle b o) b).1 ≠ .error .endless) :
    (s.advance (.ofOracle b o) b).2.Keeps ρ (Stand.fitting ρ) 0 := by
  have h1 : s.begin.Keeps ρ (Stand.fitting ρ) 0 := by
    unfold Session.begin
    split
    · exact h.same idle_nil rfl rfl rfl rfl rfl
    · exact h
  have hs1 := Changes.sound (begin_changes (o := o) s) hs
  unfold advance advanceTop at he ⊢
  split
  · exact h1.setState _
  · next f ht =>
    rw [ht] at he
    dsimp only at he
    split
    · next w hw =>
      rw [hw] at he
      exact advanceNative_keeps hu hb hs1 h1 (top?_mem ht) hw he
    · next w hw =>
      rw [hw] at he
      exact advanceScript_keeps hu hb hs1 h1 (top?_mem ht) hw he

theorem fitting_opens (ρ : Rules τ) : Stand.Opens ρ 0 (Stand.fitting ρ) := fun _ _ _ _ h => h

theorem recover_keeps (hb : b.interpreter = ρ.interpreter) (hs : s.Sound)
    (h : s.Keeps ρ (Stand.fitting ρ) 0) : (s.recover (.ofOracle b o)).Keeps ρ (Stand.fitting ρ) 0 := by
  unfold recover
  split
  · have h1 := (admits_keeps (fitting_opens ρ) hb o).respond .ready hs h
    dsimp only
    split
    · exact (Keeps.setState h1 _).log _ _
    · exact h1
  · exact h

theorem tick_keeps (hu : ρ.settings.Usable) (hb : b.interpreter = ρ.interpreter) (hs : s.Sound)
    (h : s.Keeps ρ (Stand.fitting ρ) 0) (he : (s.tick (.ofOracle b o) b).1 ≠ .error .endless) :
    (s.tick (.ofOracle b o) b).2.Keeps ρ (Stand.fitting ρ) 0 := by
  have h1 := recover_keeps (o := o) hb hs h
  have hs1 := Changes.sound (recover_changes (o := o) (b := b) hs) hs
  have h2 : (s.tickStart (.ofOracle b o)).Keeps ρ (Stand.fitting ρ) 0 :=
    (admits_keeps (fitting_opens ρ) hb o).respond .ready hs1 h1
  have hs2 := (tickStart_meanwhile (o := o) (b := b) hs).changes.sound hs1
  rcases tick_cases (.ofOracle b o) b s with ⟨-, ht⟩ | ⟨-, ht⟩ | ⟨-, ht⟩ <;> rw [ht] at he ⊢
  · exact h1
  · exact h2.enterNotReady
  · exact advance_keeps hu hb hs2 h2 he

theorem step_keeps (hu : ρ.settings.Usable) (hb : b.interpreter = ρ.interpreter) (hs : s.Sound)
    (h : s.Keeps ρ (Stand.fitting ρ) 0) (he : (s.step (.ofOracle b o) b).1 ≠ .error .endless) :
    (s.step (.ofOracle b o) b).2.Keeps ρ (Stand.fitting ρ) 0 := by
  have h1 : (s.stepStart (.ofOracle b o)).Keeps ρ (Stand.fitting ρ) 0 :=
    (admits_keeps (fitting_opens ρ) hb o).respond .ready hs h
  have hs1 := (stepStart_meanwhile (o := o) (b := b) hs).changes.sound hs
  have h2 := advance_keeps (o := o) hu hb hs1 h1
  rcases step_cases (.ofOracle b o) b s with
    ht | ⟨-, ht⟩ | ⟨-, e, s', ha, ht⟩ | ⟨-, a, s', ha, ht⟩ <;> rw [ht] at he ⊢
  · exact h
  · exact h1.enterNotReady
  · rw [ha] at h2
    exact h2 he
  · rw [ha] at h2
    have h3 := h2 he
    dsimp only
    split
    · exact h3.setState _
    · exact h3

end Session

/-- Does the operation leave the settings as they are? -/
def Operation.Leaves (settings : Settings) : Operation → Prop
  | edit _ settings' => settings' = settings
  | _ => True

namespace Session

variable {ρ : Rules τ} {s : Session σ τ} {o : Oracle σ τ} {b : Bridge τ}

theorem operation_keeps (hu : ρ.settings.Usable) (hb : b.interpreter = ρ.interpreter) (hs : s.Sound)
    (h : s.Keeps ρ (Stand.fitting ρ) 0) {x : Operation} (hx : x.Leaves ρ.settings)
    (hr : x.Returns (.ofOracle b o) b s) :
    (x.apply (.ofOracle b o) b s).Keeps ρ (Stand.fitting ρ) 0 := by
  cases x with
  | control c => exact h.control (fitting_opens ρ) hb c
  | tick => exact tick_keeps hu hb hs h hr
  | step => exact step_keeps hu hb hs h hr
  | shutdown => exact (h.stop false).same idle_nil rfl rfl rfl rfl rfl
  | edit tree settings =>
    obtain rfl := hx
    exact { h with settings := rfl }

theorem operate_keeps (hu : ρ.settings.Usable) (hb : b.interpreter = ρ.interpreter) (hs : s.Sound)
    (h : s.Keeps ρ (Stand.fitting ρ) 0) {xs : List Operation} (hx : ∀ x ∈ xs, x.Leaves ρ.settings)
    (hr : s.Returns (.ofOracle b o) b xs) :
    (s.operate (.ofOracle b o) b xs).Keeps ρ (Stand.fitting ρ) 0 := by
  induction xs generalizing s with
  | nil => exact h
  | cons x xs ih =>
    have h1 := operation_keeps hu hb hs h (hx x (by simp)) hr.1
    have hs1 := Changes.sound (operation_changes (o := o) (b := b) hs x) hs
    exact ih hs1 h1 (fun y hy => hx y (List.mem_cons_of_mem x hy)) hr.2

theorem Keeps.idle_session (ρ : Rules τ) (tree : Tree) (client : σ) :
    (Session.idle tree ρ.settings ρ.registry client).Keeps ρ (Stand.fitting ρ) 0 where
  registry := rfl
  settings := rfl
  le := Nat.le_refl _
  followed _ := trivial
  absent _ _ := rfl
  isOn _ h := absurd h (Nat.not_lt_zero _)
  gone _ h := absurd h (Nat.not_lt_zero _)
  below := nofun
  distinct := List.nodup_nil
  frames := nofun

/-- Whatever comes in and whatever the client does, the exchange with every script is followed, as long
as the operations return. -/
theorem exchange_followed (b : Bridge τ) (o : Oracle σ τ) (tree : Tree) {settings : Settings}
    (hu : settings.Usable) (registry : Registry) (client : σ) {xs : List Operation}
    (hx : ∀ x ∈ xs, x.Leaves settings)
    (hr : (Session.idle tree settings registry client).Returns (.ofOracle b o) b xs) (id : Nat) :
    Followed ⟨b.interpreter, registry, settings⟩ id
      ((Session.idle tree settings registry client).operate (.ofOracle b o) b xs).journal := by
  have h0 := Keeps.idle_session ⟨b.interpreter, registry, settings⟩ tree client
  exact (operate_keeps hu rfl (.idle ..) h0 hx hr).followed id

/-- A script that the user pauses while it goes on. Its client is away at its first line; then it yields a
line that says nothing, one that cannot be read, and one that names no macro. -/
def chatter : Session Plan Lines :=
  .waiting [.script "S"] [(true, []), (true, [.pause false]), (false, [])]

def chatterBridge : Bridge Lines :=
  .listed [(1, "/send A"), (0, "# note"), (0, "/nonsense"), (0, "/runmacro B")]

def chatterOperations : List Operation :=
  [.control (.runByName "S" none), .tick, .control .resume, .tick, .tick, .tick, .tick, .tick]

theorem chatter_followed :
    (chatter.operate (.ofOracle chatterBridge .planned) chatterBridge chatterOperations).stack.length = 0 ∧
      ((chatter.operate (.ofOracle chatterBridge .planned) chatterBridge
        chatterOperations).journal.filter fun e => e.isExchange).length = 8 ∧
      ∀ id, Followed ⟨chatterBridge.interpreter, .builtin, .fresh⟩ id
        (chatter.operate (.ofOracle chatterBridge .planned) chatterBridge chatterOperations).journal := by
  have hu : Settings.fresh.Usable := ⟨⟨false, rfl⟩, fun kind => by cases kind <;> exact ⟨_, rfl⟩⟩
  refine ⟨by decide +kernel, by decide +kernel, exchange_followed chatterBridge .planned _ hu _ _ ?_ ?_⟩
  · simp [chatterOperations, Operation.Leaves]
  · decide +kernel

end Session

end Macros
