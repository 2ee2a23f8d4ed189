import Macros.Proofs.Scheduler.Matched
import Macros.Proofs.Scheduler.Ticks

/-!
An advance of a disturbed run, beside one plain tick of the run that stands at the same place. The disturbed
run keeps up, or it stays where it stood: a native macro is put back before the line that was interrupted,
and a script waits with the line, ahead by the value that was sent to it.
-/

namespace Macros

open Session

/-- The line waits to be repeated. -/
def ScriptWork.awaits {τ : Type} (line : String) (w : ScriptWork τ) : ScriptWork τ :=
  { w with pendingLine := some line }

namespace Session

variable {τ : Type} {s t : Session Diary τ} {b : Bridge τ} (W : World) (ω : Weather τ)
  (draw : Session Diary τ → Binary64)

/-- One run advances while the other one ticks from `t`: it stays where it stood, or keeps up. By chance,
the tick may wait without an end where the other run goes on. -/
inductive Advanced {α : Type} (t : Session Diary τ) (P : Session Diary τ → Prop)
    (x y : Except Fault α × Session Diary τ) : Prop
  | endless (h : x.1 = .error .endless)
  | stuck (h : y.1 = .error .endless) (hp : t.past.length < x.2.past.length)
  | stays (h : P x.2)
  | moves (h : Abreast x.2 y.2)

theorem Alike.advanced {α : Type} {P : Session Diary τ → Prop}
    {x y : Except Fault α × Session Diary τ} (h : Alike x y) : Advanced t P x y := .moves h.abreast

theorem advanceNative_advanced (h : Abreast s t) (hn : t.stack.Pairwise (·.id < ·.id))
    (hs : s.stopEvent = false) (ht : t.stopEvent = false) {f : Frame τ} (hf : f ∈ s.stack)
    {w : NativeWork} (hw : f.work = .native w) :
    Advanced t (Abreast · t) (s.advanceNative (.ofOracle b (W.oracle ω)) b f w)
      (t.advanceNative (.ofOracle b (W.oracle (.calm draw))) b f.bare w) := by
  have hmem : f.bare ∈ t.stack := h.stack ▸ List.mem_map_of_mem hf
  unfold advanceNative
  split
  · exact .moves (h.pop rfl _)
  · next i _ =>
    have h1 := (h.modifyNative f.id fun w => { w with cursor := w.cursor + 1 }).emitStatus
    have hp := perform_matched W ω draw (b := b) h1 hs ht (f := f) (g := f.bare) rfl i
    dsimp only [Frame.bare] at hp ⊢
    generalize Session.perform _ b _ f i = x at hp ⊢
    generalize Session.perform _ b _ _ i = y at hp ⊢
    cases hp with
    | endless u hx =>
      subst hx
      exact .endless rfl
    | stuck o u v hx hy hp =>
      subst hx hy
      exact .stuck rfl (Nat.lt_of_lt_of_le hp
        (past_length_le (afterNative_journal_suffix u f.id w.cursor i _)))
    | away u hx hu =>
      -- the frame is there, and its line is at hand again
      have hown : u.owns f.id := by
        rw [← hu.owns f.id]
        show (t.modifyNative f.id _).owns f.id = true
        rw [owns_of_ids (modifyNative_map (fun _ _ => rfl) t f.id _)]
        exact (owns_iff t f.id).2 ⟨f.bare, hmem, rfl⟩
      have hback : (u.modifyNative f.id fun v => { v with cursor := w.cursor }).core = t.core := by
        rw [core_modifyNative, hu.core, (Hush.emitStatus _).core, core_modifyNative]
        refine t.core.modify_undo f.id (Frame.native_id _) fun g hg hi => ?_
        have hg : g ∈ t.stack.map Frame.bare := hg
        rw [h.calm.bare] at hg
        obtain rfl := eq_of_id hn hg hmem hi
        simp [Frame.native, Frame.bare, hw]
      subst hx
      dsimp only [afterNative]
      rw [if_pos hown]
      have h2 : Abreast (u.modifyNative f.id fun v => { v with cursor := w.cursor }) t :=
        ⟨hback, hu.left.modify _ _, h.right, h.calm⟩
      exact .stays (h2.lull ((Hush.enterNotReady _).trans (.emitStatus _)).toLull)
    | settled o u v hx hy hu =>
      subst hx hy
      exact (afterNative_alike hu f.id w.cursor i o).advanced

/-! A script. -/

/-- What becomes of a line of a script in both runs. -/
inductive Spoken (id : Nat) (line : String) (t : Session Diary τ)
    (x y : Except Fault Bool × Session Diary τ) : Prop
  | endless (h : x.1 = .error .endless)
  | stuck (h : y.1 = .error .endless) (hp : t.past.length < x.2.past.length)
  | away (hx : x.2.core = t.core.modify id (Frame.script (ScriptWork.awaits line))) (hs : x.2.Able)
  | same (h : Abreast x.2 y.2)

theorem scriptLine_spoken (h : Abreast s t) (hs : s.stopEvent = false) (ht : t.stopEvent = false)
    {f g : Frame τ} (hi : f.id = g.id) (hown : t.owns g.id) (line : String) (k : Int) :
    Spoken g.id line t (s.scriptLine (.ofOracle b (W.oracle ω)) b f line k)
      (t.scriptLine (.ofOracle b (W.oracle (.calm draw))) b g line k) := by
  have h1 := h.emitStatus
  have hreg : s.emitStatus.registry = t.emitStatus.registry := h1.registry
  unfold scriptLine
  dsimp only
  rw [hreg, hi]
  split
  · exact .same ((h1.log _ _ _).modifyScript g.id fun _ hw => hw)
  · exact .same (h1.modifyScript g.id fun _ hw => hw)
  · next i _ =>
    have hp := perform_matched W ω draw (b := b) h1 hs ht hi i
    generalize Session.perform _ b _ f i = x at hp ⊢
    generalize Session.perform _ b _ g i = y at hp ⊢
    cases hp with
    | endless u hx =>
      subst hx
      exact .endless rfl
    | stuck o u v hx hy hp =>
      subst hx hy
      exact .stuck rfl (Nat.lt_of_lt_of_le hp
        (past_length_le (afterScript_journal_suffix u g.id line i _)))
    | away u hx hu =>
      have hown' : u.owns g.id := (hu.owns g.id).symm.trans hown
      subst hx
      dsimp only [afterScript]
      rw [if_pos hown']
      have hl := Hush.enterNotReady (u.modifyScript g.id fun w => { w with pendingLine := some line })
      refine .away (hl.core.trans ?_) (hl.able (hu.left.modify _ _))
      rw [core_modifyScript, hu.core, (Hush.emitStatus _).core]
      rfl
    | settled o u v hx hy hu =>
      subst hx hy
      exact .same (afterScript_alike hu g.id line i o).abreast

theorem hostCalls_lull (k : Nat) (s : Session Diary τ) :
    Lull s (hostCalls (.ofOracle b (W.oracle ω)) k s) := by
  induction k generalizing s with
  | zero => exact .refl s
  | succ k ih => exact (respond_lull W ω b .hostCall s).trans (ih _)

/-- Nothing comes in during the host calls in calm weather. -/
theorem hostCalls_calm (k : Nat) (t : Session Diary τ) :
    (hostCalls (.ofOracle b (W.oracle (.calm draw))) k t).stack = t.stack ∧
      (hostCalls (.ofOracle b (W.oracle (.calm draw))) k t).state = t.state := by
  induction k generalizing t with
  | zero => exact ⟨rfl, rfl⟩
  | succ k ih => exact ih { t with client := t.noted .hostCall }

/-- A value has been sent, and the script goes on. -/
def resuming (s : Session Diary τ) (f : Frame τ) (w : ScriptWork τ) (run : ScriptRun τ) :
    Session Diary τ :=
  (s.record (.sent f.id (if w.run.started then w.pendingResult else .null))).modifyScript f.id
    fun w => { w with run := run }

theorem scriptStep_stopEvent (s : Session Diary τ) (f : Frame τ) (w : ScriptWork τ) :
    (s.scriptStep (.ofOracle b (W.oracle ω)) b f w).2.stopEvent = s.stopEvent := by
  unfold scriptStep
  split
  · rfl
  · rfl
  · next run a _ => exact (hostCalls_lull W ω (b := b) a.hostCalls (s.resuming f w run)).stopEvent

theorem scriptStep_outlook (t : Session Diary τ) (f : Frame τ) (w : ScriptWork τ) :
    (t.scriptStep (.ofOracle b (W.oracle ω)) b f w).2.outlook = t.outlook := by
  unfold scriptStep
  split
  · exact outlook_modifyScript t f.id _
  · exact outlook_modifyScript t f.id _
  · next run a _ =>
    refine (outlook_modifyScript _ f.id _).trans ?_
    refine (hostCalls_lull W ω (b := b) a.hostCalls (t.resuming f w run)).outlook.trans ?_
    exact (outlook_modifyScript _ f.id _).trans (Hush.record t rfl).outlook

theorem scriptStep_alike (h : Abreast s t) (f : Frame τ) (w : ScriptWork τ) :
    (s.scriptStep (.ofOracle b (W.oracle ω)) b f w).1 =
        (t.scriptStep (.ofOracle b (W.oracle (.calm draw))) b f.bare w).1 ∧
      Abreast (s.scriptStep (.ofOracle b (W.oracle ω)) b f w).2
        (t.scriptStep (.ofOracle b (W.oracle (.calm draw))) b f.bare w).2 := by
  unfold scriptStep
  dsimp only [Frame.bare]
  split
  · exact ⟨rfl, h.modifyScript f.id fun _ hw => hw⟩
  · exact ⟨rfl, h.modifyScript f.id fun _ hw => hw⟩
  · next run a _ =>
    have h1 : Abreast (s.resuming f w run) (t.resuming f w run) :=
      (h.record rfl rfl).modifyScript f.id fun _ hw => hw
    have hl := hostCalls_lull W ω (b := b) a.hostCalls (s.resuming f w run)
    have hr := hostCalls_lull W (.calm draw) (b := b) a.hostCalls (t.resuming f w run)
    obtain ⟨hstack, hstate⟩ := hostCalls_calm W draw (b := b) a.hostCalls (t.resuming f w run)
    have h2 := h1.both hl hr (h1.calm.of_eq hstack hstate)
    exact ⟨rfl, h2.modifyScript f.id fun _ hw => hw⟩

theorem top?_modifyScript {f : Frame τ} {w : ScriptWork τ} (h : t.top? = some f)
    (hw : f.work = .script w) (g : ScriptWork τ → ScriptWork τ) :
    (t.modifyScript f.id g).top? = some { f with work := .script (g w) } := by
  show (t.stack.map _).getLast? = _
  have hl : t.stack.getLast? = some f := h
  rw [List.getLast?_map, hl]
  simp [hw]

theorem scriptStep_top {f : Frame τ} {w : ScriptWork τ} (h : t.top? = some f) (hw : f.work = .script w) :
    ∃ r, (t.scriptStep (.ofOracle b (W.oracle (.calm draw))) b f w).2.top? =
      some { f with work := .script { w with run := r } } := by
  unfold scriptStep
  split
  · exact ⟨_, top?_modifyScript h hw _⟩
  · exact ⟨_, top?_modifyScript h hw _⟩
  · next run a _ =>
    have h1 : (t.resuming f w run).top? = some { f with work := .script { w with run := run } } :=
      top?_modifyScript (t := t.record _) h hw _
    rw [top?, ← (hostCalls_calm W draw (b := b) a.hostCalls (t.resuming f w run)).1] at h1
    exact ⟨_, top?_modifyScript h1 rfl _⟩

/-- The calm run as the line of its next tick begins. -/
def calmStart (t : Session Diary τ) : Session Diary τ :=
  Session.begin { t with client := t.noted .ready }

theorem begin_stopEvent (hs : s.Able) : s.begin.stopEvent = false := by
  unfold Session.begin
  split
  · rfl
  · next hf => exact hs.heeds.resolve_left hf

theorem begin_able (hs : s.Able) : s.begin.Able := ⟨.inr (begin_stopEvent hs), by
  unfold Session.begin
  split
  · exact hs.dated
  · exact hs.dated⟩

theorem begin_core (s : Session Diary τ) : s.begin.core = s.core := by
  unfold Session.begin
  split <;> rfl

theorem begin_stack (s : Session Diary τ) : s.begin.stack = s.stack ∧ s.begin.state = s.state := by
  unfold Session.begin
  split <;> exact ⟨rfl, rfl⟩

theorem tick_calm (h : t.state = .running) : t.tick (.ofOracle b (W.oracle (.calm draw))) b =
    t.calmStart.advanceTop (.ofOracle b (W.oracle (.calm draw))) b := by
  have hr : t.recover (.ofOracle b (W.oracle (.calm draw))) = t := by simp [recover, h]
  unfold tick
  rw [hr]
  dsimp only
  rw [if_neg (by simp [h])]
  rfl

/-- The calm run when its script has gone on. -/
def resumed (b : Bridge τ) (t : Session Diary τ) (f : Frame τ) (w : ScriptWork τ) : Session Diary τ :=
  (t.calmStart.scriptStep (.ofOracle b (W.oracle (.calm draw))) b f w).2.modifyScript f.id
    fun w => { w with steps := w.steps + 1 }

/-- A script has got the value that the calm run sends with its next tick, and its line waits to be
repeated. -/
structure Ahead (b : Bridge τ) (s t : Session Diary τ) : Prop where
  left : s.Able
  right : t.Able
  calm : t.Serene
  sent : ∃ f w line, t.top? = some f ∧ f.work = .script w ∧
    (t.calmStart.scriptStep (.ofOracle b (W.oracle (.calm draw))) b f w).1 = .ok (some line) ∧
    s.core = (resumed W draw b t f w).core.modify f.id (Frame.script (ScriptWork.awaits line))

/-- Where a disturbed run may stand when `n` plain ticks have led to `t`. -/
def Near (b : Bridge τ) (s t : Session Diary τ) : Prop := Abreast s t ∨ Ahead W draw b s t

theorem resumed_outlook (t : Session Diary τ) (f : Frame τ) (w : ScriptWork τ) :
    (resumed W draw b t f w).outlook = t.outlook := by
  refine (outlook_modifyScript _ f.id _).trans ((scriptStep_outlook W (.calm draw) _ f w).trans ?_)
  rw [outlook_eq, outlook_eq, calmStart, begin_core]
  rfl

theorem Near.outlook (h : Near W draw b s t) : s.outlook = t.outlook := by
  rcases h with h | h
  · rw [outlook_eq, outlook_eq, h.core]
  · obtain ⟨f, w, line, -, -, -, hx⟩ := h.sent
    rw [outlook_eq, hx, Core.places_script]
    exact (outlook_eq (resumed W draw b t f w)).symm.trans (resumed_outlook W draw t f w)

theorem calmStart_abreast (h : Abreast s t) : Abreast s t.calmStart where
  core := h.core.trans (begin_core { t with client := t.noted .ready }).symm
  left := h.left
  right := begin_able ⟨h.right.heeds, h.right.dated⟩
  calm := h.calm.of_eq (begin_stack _).1 (begin_stack _).2

theorem calmStart_stopEvent (ht : t.Able) : t.calmStart.stopEvent = false :=
  begin_stopEvent ⟨ht.heeds, ht.dated⟩

theorem calmStart_top (t : Session Diary τ) : t.calmStart.top? = t.top? := by
  unfold top?
  rw [calmStart, (begin_stack _).1]

theorem calmStart_past (t : Session Diary τ) : t.calmStart.past = t.past :=
  congrArg Core.past (begin_core { t with client := t.noted .ready })

theorem abreast_self (ht : t.Able) (hc : t.Serene) : Abreast t t := ⟨rfl, ht, ht, hc⟩

section

variable {f : Frame τ} {w : ScriptWork τ} {line : String}

theorem resumed_abreast (ht : t.Able) (hc : t.Serene) (hf : t.top? = some f) :
    (resumed W draw b t f w).Able ∧ (resumed W draw b t f w).Serene := by
  have hu : f.bare = f := (hc.frames f (top?_mem hf)).bare
  have h0 := (calmStart_abreast (abreast_self ht hc))
  have h1 := (scriptStep_alike W (.calm draw) draw (b := b) (abreast_self h0.right h0.calm) f w).2
  rw [hu] at h1
  have h2 := h1.modifyScript f.id (g := fun w => { w with steps := w.steps + 1 }) fun _ hw => hw
  exact ⟨h2.right, h2.calm⟩

theorem resumed_top (hf : t.top? = some f) (hw : f.work = .script w) :
    ∃ r, (resumed W draw b t f w).top? =
      some { f with work := .script { w with run := r, steps := w.steps + 1 } } := by
  rw [← calmStart_top] at hf
  obtain ⟨r, hr⟩ := scriptStep_top W draw (b := b) hf hw
  exact ⟨r, top?_modifyScript hr rfl _⟩

/-- The line of a script, from the moment at which the calm run has it. -/
theorem resumed_advanced {u : Session Diary τ} {g : Frame τ} {k : Int} (ht : t.Able)
    (hc : t.Serene) (hf : t.top? = some f) (hw : f.work = .script w)
    (hline : (t.calmStart.scriptStep (.ofOracle b (W.oracle (.calm draw))) b f w).1 = .ok (some line))
    (h : Abreast u (resumed W draw b t f w)) (hu : u.stopEvent = false) (hi : g.id = f.id) :
    Advanced t (Near W draw b · t) (u.scriptLine (.ofOracle b (W.oracle ω)) b g line k)
      ((resumed W draw b t f w).scriptLine (.ofOracle b (W.oracle (.calm draw))) b f line k) := by
  have hstop : (resumed W draw b t f w).stopEvent = false :=
    (scriptStep_stopEvent W (.calm draw) t.calmStart f w).trans (calmStart_stopEvent ht)
  obtain ⟨r, hr⟩ := resumed_top W draw (b := b) hf hw
  have hown : (resumed W draw b t f w).owns f.id := (owns_iff _ _).2 ⟨_, top?_mem hr, rfl⟩
  cases scriptLine_spoken W ω draw (b := b) h hu hstop hi hown line k with
  | endless he => exact .endless he
  | stuck he hp =>
    have hpast : (resumed W draw b t f w).past = t.past :=
      congrArg Prod.fst (resumed_outlook W draw t f w)
    exact .stuck he (hpast ▸ hp)
  | away hx hs => exact .stays (.inr ⟨hs, ht, hc, f, w, line, hf, hw, hline, hx⟩)
  | same hx => exact .moves hx

theorem advanceScript_sent (h : Abreast s t) (hs : s.stopEvent = false) (hf : s.top? = some f)
    (hw : f.work = .script w) (hp : w.pendingLine = none) :
    Advanced t (Near W draw b · t) (s.advanceScript (.ofOracle b (W.oracle ω)) b f w)
      (t.calmStart.advanceScript (.ofOracle b (W.oracle (.calm draw))) b f.bare w) := by
  have htop : t.top? = some f.bare := by rw [h.top?, hf]; rfl
  obtain ⟨hr, h1⟩ := scriptStep_alike W ω draw (b := b) (calmStart_abreast h) f w
  have hstop := scriptStep_stopEvent W ω (b := b) s f w
  unfold advanceScript
  rw [hp]
  dsimp only
  rcases hx : s.scriptStep (.ofOracle b (W.oracle ω)) b f w with ⟨r, u⟩
  rcases hy : t.calmStart.scriptStep (.ofOracle b (W.oracle (.calm draw))) b f.bare w with ⟨r', v⟩
  rw [hx, hy] at hr h1
  rw [hx] at hstop
  obtain rfl : r = r' := hr
  cases r with
  | error m => exact .moves (popIfOwned_abreast (h1.log _ _ _) f.id _)
  | ok o =>
    cases o with
    | none => exact .moves (popIfOwned_abreast h1 f.id _)
    | some line =>
      have hv : resumed W draw b t f.bare w =
          v.modifyScript f.id fun w => { w with steps := w.steps + 1 } := by
        unfold resumed
        rw [hy]
        rfl
      have h2 := h1.modifyScript f.id (g := fun w => { w with steps := w.steps + 1 }) fun _ hw => hw
      have h3 := resumed_advanced W ω draw (b := b) (k := w.steps) (g := f)
        (u := u.modifyScript f.id fun w => { w with steps := w.steps + 1 }) h.right h.calm htop hw
        (congrArg Prod.fst hy) (by rw [hv]; exact h2) (hstop.trans hs) rfl
      rw [hv] at h3
      exact h3

/-- The frame of a script that is ahead. -/
theorem ahead_top
    (hs : s.core = (resumed W draw b t f w).core.modify f.id (Frame.script (ScriptWork.awaits line)))
    (ht : t.Able) (hc : t.Serene) (hf : t.top? = some f) (hw : f.work = .script w) :
    ∃ g r, s.top? = some g ∧ g.id = f.id ∧
      g.work = .script { w with run := r, steps := w.steps + 1, pendingLine := some line } := by
  obtain ⟨r, hr⟩ := resumed_top W draw (b := b) hf hw
  have hframes : s.stack.map Frame.bare = (resumed W draw b t f w).stack.map
      fun g => if g.id = f.id then g.script (ScriptWork.awaits line) else g := by
    rw [← (resumed_abreast W draw (b := b) ht hc hf).2.bare]
    exact congrArg Core.frames hs
  have htop : s.top?.map Frame.bare = some { f with
      work := .script { w with run := r, steps := w.steps + 1, pendingLine := some line } } := by
    have hr' : (resumed W draw b t f w).stack.getLast? = _ := hr
    rw [top?, ← List.getLast?_map, hframes, List.getLast?_map, hr']
    simp [Frame.script, ScriptWork.awaits]
  obtain ⟨g, hg, hb⟩ := Option.map_eq_some_iff.1 htop
  exact ⟨g, r, hg, (congrArg Frame.id hb :), (congrArg Frame.work hb :)⟩

theorem advance_ahead
    (hs : s.core = (resumed W draw b t f w).core.modify f.id (Frame.script (ScriptWork.awaits line)))
    (hl : s.Able) (hstop : s.stopEvent = false) (ht : t.Able) (hc : t.Serene) (hf : t.top? = some f)
    (hw : f.work = .script w)
    (hline : (t.calmStart.scriptStep (.ofOracle b (W.oracle (.calm draw))) b f w).1 = .ok (some line)) :
    Advanced t (Near W draw b · t) (s.advanceTop (.ofOracle b (W.oracle ω)) b)
      (t.calmStart.advanceTop (.ofOracle b (W.oracle (.calm draw))) b) := by
  obtain ⟨g, r, hg, hi, hgw⟩ := ahead_top W draw (b := b) hs ht hc hf hw
  obtain ⟨hra, hrc⟩ := resumed_abreast W draw (b := b) (w := w) ht hc hf
  have hp : w.pendingLine = none := (hc.frames f (top?_mem hf)).line w hw
  -- once its line is at hand again, the script stands where the calm run stands
  have h1 : Abreast (s.modifyScript g.id fun w => { w with pendingLine := none })
      (resumed W draw b t f w) := by
    refine ⟨?_, hl.modify _ _, hra, hrc⟩
    rw [core_modifyScript, hs, hi]
    refine Core.modify_undo _ f.id (Frame.script_id _) fun e he _ => ?_
    have he : e ∈ (resumed W draw b t f w).stack.map Frame.bare := he
    rw [hrc.bare] at he
    have hnone := (hrc.frames e he).line
    obtain ⟨_, _, _, _, _, work⟩ := e
    cases work with
    | native v => rfl
    | script v =>
      have hv : v.pendingLine = none := hnone v rfl
      obtain ⟨_, _, _, _⟩ := v
      obtain rfl := hv
      rfl
  have h2 := resumed_advanced W ω draw (b := b) (k := w.steps) ht hc hf hw hline h1 hstop hi
  have hx : s.advanceTop (.ofOracle b (W.oracle ω)) b =
      (s.modifyScript g.id fun w => { w with pendingLine := none }).scriptLine
        (.ofOracle b (W.oracle ω)) b g line w.steps := by
    have hk : ((w.steps + 1 : Nat) : Int) - 1 = w.steps := by omega
    unfold advanceTop advanceScript
    rw [hg]
    dsimp only
    rw [hgw]
    dsimp only
    rw [hk]
  have hy : t.calmStart.advanceTop (.ofOracle b (W.oracle (.calm draw))) b =
      (resumed W draw b t f w).scriptLine (.ofOracle b (W.oracle (.calm draw))) b f line w.steps := by
    unfold advanceTop advanceScript resumed
    rw [calmStart_top, hf]
    dsimp only
    rw [hw]
    dsimp only
    rw [hp]
    dsimp only
    rcases h3 : t.calmStart.scriptStep (.ofOracle b (W.oracle (.calm draw))) b f w with ⟨r', v⟩
    rw [h3] at hline
    obtain rfl : r' = _ := hline
    rfl
  rw [hx, hy]
  exact h2

end

end Session

end Macros
