import Macros.Proofs.Scheduler.Told

/-!
Observers are never stale. Whatever the driver does to the cursors and step counts of frames it reports before
it lets anyone else come in, so after every operation, and whenever a control call has come in, what observers
were told last is so.
-/

namespace Macros

open Session

variable {σ τ : Type}

/-- What the client does while it answers keeps it as it should be. -/
def Oracle.Keeps (o : Oracle σ τ) (Q : σ → Prop) : Prop := ∀ k s, s.Informed Q → Q (o k s).2.2

namespace Session

variable {o : Oracle σ τ} {b : Bridge τ} {s t : Session σ τ} {f : Frame τ} {Q : σ → Prop}

/-- While the driver waits observers stay informed. -/
theorem informed_admits (ho : o.Keeps Q) : Admits b o fun s t => s.Informed Q → t.Informed Q where
  refl _ := id
  trans h h' hs := h' (h hs)
  client s k h := ⟨h.status, h.echo, ho k s h⟩
  control c _ h := h.control b c
  start name _ _ h := h.runNested b name
  say _ _ _ h := h.unshown ⟨rfl, rfl, rfl, rfl⟩

theorem perform_sound (h : s.Sound) (f : Frame τ) (i : Instruction) :
    (s.perform (.ofOracle b o) b f i).2.Sound :=
  ((meanwhile b o).perform h f i).changes.sound (h.of_eq rfl rfl rfl rfl)

theorem Informed.perform (h : s.Informed Q) (ho : o.Keeps Q) (hs : s.Sound) (f : Frame τ)
    (i : Instruction) : (s.perform (.ofOracle b o) b f i).2.Informed Q := by
  have h0 : (s.record (.handed f.id i)).Informed Q := h.unshown ⟨rfl, rfl, rfl, rfl⟩
  have hs0 : (s.record (.handed f.id i)).Sound := hs.of_eq rfl rfl rfl rfl
  have h1 := (informed_admits (b := b) ho).routine
    (Execution.execute (s.record (.handed f.id i)).settings i).run hs0 ⟨f.id, i, by simp [record]⟩ h0
  unfold Session.perform
  dsimp only
  split
  · next hr => rw [hr] at h1; exact h1.unshown ⟨rfl, rfl, rfl, rfl⟩
  · next hr => rw [hr] at h1; exact h1.log _ _
  · next hr => rw [hr] at h1; exact h1
  · next hr => rw [hr] at h1; exact h1.unshown ⟨rfl, rfl, rfl, rfl⟩

/-! After a line. -/

theorem Informed.loopFlags (h : s.Informed Q) (id : Nat) : (s.loopFlags id).Informed Q := by
  unfold Session.loopFlags
  split
  · exact h
  · split
    · exact (h.log _ _).halt
    · split
      · have h1 := h.unshown (modify_unshown s id (g := fun f => { f with pauseAtLoop := false })
          fun _ _ _ => ⟨rfl, rfl⟩)
        dsimp only
        split
        · exact (h1.setState _).log _ _
        · exact h1.log _ _
      · exact h

/-- A loop that is reported ends with a report of the status, as the option can be read. -/
theorem Informed.reportLoop (h : s.Informed Q) (hs : t.settings = s.settings) (hc : t.client = s.client)
    (name : Value) (done : Nat) (n : Option Int) : (t.reportLoop name done n).2.Informed Q := by
  obtain ⟨echo, he⟩ := h.echo
  have he : (t.record (.loop name done n)).settings.loopEcho = .ok echo := (congrArg _ hs).trans he
  unfold Session.reportLoop
  dsimp only
  rw [he]
  cases echo
  · exact h.emitStatus hs hc
  · exact h.emitStatus hs hc

theorem Informed.loopBoundary (h : s.Informed Q) (hs : s.Sound) (id k : Nat) (n : Option Int) :
    (s.loopBoundary id k n).2.Informed Q := by
  unfold Session.loopBoundary
  split
  · exact h
  · next g hg =>
    split
    · exact h.loopFlags id
    · split
      · exact h.loopFlags id
      · next w hw =>
        dsimp only
        split
        · have h1 := h.reportLoop (t := s.modifyNative id fun w => passLoop w k n) rfl rfl
            ((s.modifyNative id fun w => passLoop w k n).nameOf g) (w.loopsDone + 1) n
          split
          · next hr => rw [hr] at h1; exact h1
          · next hr => rw [hr] at h1; exact h1.loopFlags id
        · next hr =>
          -- the loop line is passed for good, and the cursor stays behind it
          refine (h.unshown (modify_unshown s id fun f hf hi => ?_)).loopFlags id
          obtain rfl := hs.eq_of_id hf (frame?_some hg).1 (hi.trans (frame?_some hg).2.symm)
          simp [hw, Frame.position, passLoop, hr]

theorem Informed.settle (h : s.Informed Q) (id : Nat) (i : Instruction) (x : Outcome) :
    (s.settle id i x).2.Informed Q := by
  unfold Session.settle
  split
  · exact h
  · split
    · exact h
    · dsimp only
      split
      · exact h
      · exact (h.log _ _).pop _ _
      · exact h.log _ _

theorem Informed.popIfDone (h : s.Informed Q) (id : Nat) : (s.popIfDone id).Informed Q := by
  rcases popIfDone_cases s id with he | ⟨f, -, he⟩ <;> rw [he]
  · exact h
  · exact h.pop f .completed

theorem Informed.popIfOwned (h : s.Informed Q) (id : Nat) (r : FrameResult) :
    (s.popIfOwned id r).Informed Q := by
  rcases popIfOwned_cases s id r with he | ⟨f, -, he⟩ <;> rw [he]
  · exact h
  · exact h.pop f r

theorem Informed.afterNative (h : s.Informed Q) (hs : s.Sound) (id k : Nat) (i : Instruction)
    (x : LineResult) : (s.afterNative id k i x).2.Informed Q := by
  unfold Session.afterNative
  cases x with
  | none =>
    dsimp only
    split
    · have hu := enterNotReady_unshown (s.modifyNative id fun w => { w with cursor := k })
      exact h.emitStatus hu.settings hu.client
    · exact h
  | some x =>
    have h1 := h.settle id i x
    have hs1 := Changes.sound (settle_changes (o := .still) s id i x) hs
    dsimp only
    split
    · next hr => rw [hr] at h1; exact h1
    · next hr => rw [hr] at h1; exact h1
    · next t hr =>
      rw [hr] at h1 hs1
      split
      · have h2 := h1.loopBoundary hs1 id k (loopCount i)
        split
        · next hb => rw [hb] at h2; exact h2
        · next hb => rw [hb] at h2; exact h2.popIfDone id
      · exact h1.popIfDone id

theorem Informed.afterScript (h : s.Informed Q) (id : Nat) (line : String) (i : Instruction)
    (x : LineResult) : (s.afterScript id line i x).2.Informed Q := by
  unfold Session.afterScript
  cases x with
  | none =>
    dsimp only
    split
    · have hu := modifyScript_unshown s id (g := fun w => { w with pendingLine := some line })
        fun _ => rfl
      exact h.unshown (hu.trans (enterNotReady_unshown _))
    · exact h
  | some x =>
    have h1 := (h.unshown (modifyScript_unshown s id
      (g := fun w => { w with pendingResult := .flag x.ok }) fun _ => rfl)).settle id i x
    dsimp only
    split
    · next hr => rw [hr] at h1; exact h1
    · next hr => rw [hr] at h1; exact h1
    · next hr =>
      rw [hr] at h1
      split
      · exact h1.loopFlags id
      · exact h1

/-! The driver. -/

theorem Informed.advanceNative (h : s.Informed Q) (ho : o.Keeps Q) (hs : s.Sound) {w : NativeWork}
    (hf : f ∈ s.stack) (hw : f.work = .native w) :
    (s.advanceNative (.ofOracle b o) b f w).2.Informed Q := by
  rcases advanceNative_cases (.ofOracle b o) b s f w with ha | ⟨i, t, hi, rfl, ha⟩
  · rw [ha]
    exact h.pop f .completed
  · have hs1 := Changes.sound (stepOver_spec (o := o) hs hf hw hi).1 hs
    have h1 : (s.stepOver f.id).Informed Q := h.emitStatus rfl rfl
    have h2 := h1.perform (b := b) ho hs1 f i
    rcases ha with ha | ⟨x, ha⟩ <;> rw [ha]
    · exact h2
    · exact h2.afterNative (perform_sound hs1 f i) f.id w.cursor i x

/-- The line of a script begins with a report of the status, however often the script was resumed before. -/
theorem Informed.scriptLine (h : s.Informed Q) (ho : o.Keeps Q) (ht : t.Sound)
    (hset : t.settings = s.settings) (hc : t.client = s.client) (f : Frame τ) (line : String) (k : Int) :
    (t.scriptLine (.ofOracle b o) b f line k).2.Informed Q := by
  have h0 : t.emitStatus.Informed Q := h.emitStatus hset hc
  have hs0 : t.emitStatus.Sound := ht.of_eq rfl rfl rfl rfl
  unfold Session.scriptLine
  dsimp only
  split
  · exact (h0.log _ _).unshown (modifyScript_unshown _ f.id fun _ => rfl)
  · exact h0.unshown (modifyScript_unshown _ f.id fun _ => rfl)
  · next i _ =>
    have h1 := h0.perform (b := b) ho hs0 f i
    split
    · next hp => rw [hp] at h1; exact h1
    · next hp => rw [hp] at h1; exact h1.afterScript f.id line i _

theorem Informed.scriptStep (h : s.Informed Q) (ho : o.Keeps Q) (hs : s.Sound) (f : Frame τ)
    (w : ScriptWork τ) : (s.scriptStep (.ofOracle b o) b f w).2.Informed Q := by
  unfold Session.scriptStep
  split
  · exact h.unshown (modifyScript_unshown s f.id fun _ => rfl)
  · exact h.unshown (modifyScript_unshown s f.id fun _ => rfl)
  · next run a _ =>
    dsimp only
    let v := if w.run.started then w.pendingResult else .null
    have h1 : (s.record (.sent f.id v)).Informed Q := h.unshown ⟨rfl, rfl, rfl, rfl⟩
    have hs1 : (s.record (.sent f.id v)).Sound := hs.of_eq rfl rfl rfl rfl
    have h2 := h1.unshown (modifyScript_unshown _ f.id (g := fun w => { w with run := run }) fun _ => rfl)
    have hs2 := Changes.sound (script_change (o := o) _ f.id fun w => { w with run := run }) hs1
    have h3 := (informed_admits (b := b) ho).hostCalls a.hostCalls hs2 h2
    exact h3.unshown (modifyScript_unshown _ f.id fun _ => rfl)

theorem Informed.advanceScript (h : s.Informed Q) (ho : o.Keeps Q) (hs : s.Sound) (hf : f ∈ s.stack)
    (w : ScriptWork τ) : (s.advanceScript (.ofOracle b o) b f w).2.Informed Q := by
  unfold Session.advanceScript
  split
  · exact h.scriptLine ho (Changes.sound (script_change (o := o) s f.id _) hs) rfl rfl f _ _
  · have h1 := h.scriptStep (b := b) ho hs f w
    have hs1 := Changes.sound (scriptStep_spec (o := o) (b := b) hs hf w).1 hs
    split
    · next hr => rw [hr] at h1; exact (h1.log _ _).popIfOwned f.id .failed
    · next hr => rw [hr] at h1; exact h1.popIfOwned f.id .completed
    · next hr =>
      rw [hr] at h1 hs1
      exact h1.scriptLine ho (Changes.sound (script_change (o := o) _ f.id _) hs1) rfl rfl f _ _

theorem Informed.advance (h : s.Informed Q) (ho : o.Keeps Q) (hs : s.Sound) :
    (s.advance (.ofOracle b o) b).2.Informed Q := by
  have h1 : s.begin.Informed Q := by
    unfold Session.begin
    split
    · exact h.unshown ⟨rfl, rfl, rfl, rfl⟩
    · exact h
  have hs1 := Changes.sound (begin_changes (o := o) s) hs
  unfold Session.advance advanceTop
  split
  · exact h1.setState _
  · next f ht =>
    split
    · next hw => exact h1.advanceNative ho hs1 (top?_mem ht) hw
    · exact h1.advanceScript ho hs1 (top?_mem ht) _

theorem Informed.enterNotReady (h : s.Informed Q) : s.enterNotReady.Informed Q :=
  h.unshown (enterNotReady_unshown s)

theorem Informed.recover (h : s.Informed Q) (ho : o.Keeps Q) (hs : s.Sound) :
    (s.recover (.ofOracle b o)).Informed Q := by
  unfold Session.recover
  split
  · have h1 := (informed_admits (b := b) ho).respond .ready hs h
    dsimp only
    split
    · exact (h1.setState _).log _ _
    · exact h1
  · exact h

theorem Informed.tick (h : s.Informed Q) (ho : o.Keeps Q) (hs : s.Sound) :
    (s.tick (.ofOracle b o) b).2.Informed Q := by
  have h1 := h.recover (b := b) ho hs
  have hs1 := Changes.sound (recover_changes (o := o) (b := b) hs) hs
  have h2 : (s.tickStart (.ofOracle b o)).Informed Q :=
    (informed_admits (b := b) ho).respond .ready hs1 h1
  have hs2 := (tickStart_meanwhile (o := o) (b := b) hs).changes.sound hs1
  rcases tick_cases (.ofOracle b o) b s with ⟨-, ht⟩ | ⟨-, ht⟩ | ⟨-, ht⟩ <;> rw [ht]
  · exact h1
  · exact h2.enterNotReady
  · exact h2.advance ho hs2

theorem Informed.step (h : s.Informed Q) (ho : o.Keeps Q) (hs : s.Sound) :
    (s.step (.ofOracle b o) b).2.Informed Q := by
  have h1 : (s.stepStart (.ofOracle b o)).Informed Q :=
    (informed_admits (b := b) ho).respond .ready hs h
  have h2 := h1.advance (b := b) ho ((stepStart_meanwhile (o := o) (b := b) hs).changes.sound hs)
  rcases step_cases (.ofOracle b o) b s with
    ht | ⟨-, ht⟩ | ⟨-, e, s', ha, ht⟩ | ⟨-, a, s', ha, ht⟩ <;> rw [ht]
  · exact h
  · exact h1.enterNotReady
  · rw [ha] at h2
    exact h2
  · rw [ha] at h2
    dsimp only
    split
    · exact h2.setState _
    · exact h2

end Session

/-- Whoever changes the tree and the settings renames no macro that is running, and leaves the options readable. -/
def Operation.Discreet (s : Session σ τ) : Operation → Prop
  | edit tree settings =>
    (∀ f ∈ s.stack, tree.name f.node = s.tree.name f.node) ∧ settings.EchoReadable
  | _ => True

namespace Session

/-- Every operation is discreet when its turn comes. -/
def AllDiscreet (c : Client σ τ) (b : Bridge τ) (s : Session σ τ) : List Operation → Prop
  | [] => True
  | x :: xs => x.Discreet s ∧ AllDiscreet c b (x.apply c b s) xs

/-- Observers were told the status and the run state last that are so, and no run state twice in a row. -/
structure Posted (s : Session σ τ) : Prop where
  status : Journal.status s.journal = s.status
  state : Journal.state s.journal = s.state
  changing : (Journal.states s.journal).IsChain (· ≠ ·)

variable {o : Oracle σ τ} {b : Bridge τ} {s : Session σ τ} {Q : σ → Prop}

theorem Informed.operation (h : s.Informed Q) (ho : o.Keeps Q) (hs : s.Sound) {x : Operation}
    (hx : x.Discreet s) : (x.apply (.ofOracle b o) b s).Informed Q := by
  cases x with
  | control c => exact h.control b c
  | tick => exact h.tick ho hs
  | step => exact h.step ho hs
  | shutdown => exact (h.stop false).unshown ⟨rfl, rfl, rfl, rfl⟩
  | edit tree settings =>
    have hn : ({ s with tree := tree, settings := settings } : Session σ τ).status = s.status :=
      List.map_congr_left fun f hf => congrArg (·, f.position) (hx.1 f hf)
    exact ⟨h.status.trans hn.symm, hx.2, h.client⟩

theorem Informed.operate (h : s.Informed Q) (ho : o.Keeps Q) (hs : s.Sound) {xs : List Operation}
    (hx : s.AllDiscreet (.ofOracle b o) b xs) : (s.operate (.ofOracle b o) b xs).Informed Q := by
  induction xs generalizing s with
  | nil => exact h
  | cons x xs ih =>
    exact ih (h.operation ho hs hx.1) (Changes.sound (operation_changes (b := b) hs x) hs) hx.2

theorem Informed.posted (h : s.Informed Q) (ht : s.Traced) (hc : s.Changing) : s.Posted :=
  ⟨h.status, ht.state, hc⟩

/-- The control calls that come in leave observers informed. -/
theorem Informed.land_posted (h : s.Informed Q) (hs : s.Sound) (ht : s.Traced) (hc : s.Changing)
    (cs : List Control) : (s.land b cs).Posted := by
  have hl : Changes (.still : Oracle σ τ) s (s.land b cs) := ((meanwhile b .still).land cs hs).changes
  have hi : (s.land b cs).Informed fun _ => True :=
    (informed_admits fun _ _ _ => trivial).land (o := .still) cs hs ⟨h.status, h.echo, trivial⟩
  exact hi.posted (hl.traced ht) (hl.changing ht hc)

/-- Observers are never stale: after every operation, and whenever the client is called and any control calls
have come in, they know the status and the run state. -/
theorem observers_informed (b : Bridge τ) (o : Oracle σ τ) (tree : Tree) (settings : Settings)
    (registry : Registry) (client : σ) (he : settings.EchoReadable) (xs : List Operation) :
    ((idle tree settings registry client).AllDiscreet (.ofOracle b o) b xs →
      ((idle tree settings registry client).operate (.ofOracle b o) b xs).Posted) ∧
    ((idle tree settings registry (client, [])).AllDiscreet (.ofOracle b o.filmed) b xs →
      ∀ m ∈ ((idle tree settings registry (client, [])).operate (.ofOracle b o.filmed) b xs).client.2,
        ∀ cs, (m.land b cs).Posted) := by
  constructor
  · intro hx
    have hs := Sound.idle (τ := τ) tree settings registry client
    have ht := Traced.idle (τ := τ) tree settings registry client
    have hc := operate_changes (o := o) (b := b) hs xs
    have hi : (idle tree settings registry client : Session σ τ).Informed fun _ => True :=
      ⟨rfl, he, trivial⟩
    exact (hi.operate (fun _ _ _ => trivial) hs hx).posted (hc.traced ht) (hc.changing ht .nil)
  · intro hx m hm cs
    let s : Session (σ × List (Session σ τ)) τ := idle tree settings registry (client, [])
    have hs : s.Sound := Sound.idle tree settings registry _
    have ht : s.Traced := Traced.idle tree settings registry _
    have hc := operate_changes (o := o.filmed) (b := b) hs xs
    have hm' : m.Sound ∧ m.Traced ∧ m.Changing :=
      hc.shows (P := fun m => m.Sound ∧ m.Traced ∧ m.Changing)
        (R := fun s => s.Sound ∧ s.Traced ∧ s.Changing)
        (fun hc h => ⟨hc.sound h.1, hc.traced h.2.1, hc.changing h.2.1 h.2.2⟩)
        (fun h => ⟨h.1.seen, ⟨h.2.1.frames, h.2.1.state⟩, h.2.2⟩) ⟨hs, ht, .nil⟩ (by simp [s, idle]) m hm
    let Q : σ × List (Session σ τ) → Prop := fun c => ∀ m ∈ c.2, m.Informed fun _ => True
    have hi : s.Informed Q := ⟨rfl, he, by simp [s, Q, idle]⟩
    have ho : o.filmed.Keeps Q := by
      intro k s h m hm
      rcases List.mem_cons.1 hm with rfl | hm
      · exact ⟨h.status, h.echo, trivial⟩
      · exact h.client m hm
    exact ((hi.operate ho hs hx).client m hm).land_posted hm'.1 hm'.2.1 hm'.2.2 cs

/-- Loops are to go into the log from now on. Then a script starts a macro with a loop, and while it is under way
the user pauses, and starts that macro as well. -/
def echoOperations : List Operation :=
  .edit (flight ()).tree ⟨((Ini.empty.addSection "NOTIFY").set "NOTIFY" "loop_echo" "true"), none⟩ ::
    flightOperations ++ [.control .resume, .tick, .tick, .tick, .shutdown]

theorem flight_informed :
    Settings.fresh.EchoReadable ∧
      (flight flightPlan).AllDiscreet (.ofOracle flightBridge .planned) flightBridge echoOperations ∧
      (flight (flightPlan, [])).AllDiscreet (.ofOracle flightBridge (Oracle.filmed .planned))
        flightBridge echoOperations ∧
      Journal.states ((flight flightPlan).operate (.ofOracle flightBridge .planned) flightBridge
        echoOperations).journal = [.idle, .running, .paused, .running] ∧
      ((flight flightPlan).operate (.ofOracle flightBridge .planned) flightBridge echoOperations).Posted ∧
      ((flight (flightPlan, [])).operate (.ofOracle flightBridge (Oracle.filmed .planned))
        flightBridge echoOperations).client.2.length = 11 ∧
      ∀ m ∈ ((flight (flightPlan, [])).operate (.ofOracle flightBridge (Oracle.filmed .planned))
          flightBridge echoOperations).client.2, ∀ cs, (m.land flightBridge cs).Posted := by
  have he : Settings.fresh.EchoReadable := ⟨false, by rfl⟩
  have hu {σ : Type} (o : Oracle σ Lines) (client : σ) :
      (flight client).AllDiscreet (.ofOracle flightBridge o) flightBridge echoOperations :=
    ⟨⟨by simp [flight, idle], true, by rfl⟩, by simp [AllDiscreet, Operation.Discreet, flightOperations]⟩
  have h := observers_informed flightBridge .planned
    (.ofDocument (.folder (.text "/") [.native "A" "/send X\n/loop 2", .script "S"])) .fresh
    .builtin flightPlan he echoOperations
  exact ⟨he, hu _ _, hu _ _, by decide +kernel, h.1 (hu _ _), by decide +kernel, h.2 (hu _ _)⟩

end Session

end Macros
