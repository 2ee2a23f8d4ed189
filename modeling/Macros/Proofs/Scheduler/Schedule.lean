import Macros.Proofs.Scheduler.Advanced
import Macros.Proofs.Scheduler.Planned

/-!
Whatever the weather and whatever the schedule, a run comes to the same lines as plain ticks of it do in
calm weather. Every operation of a schedule is nothing to the run, or one plain tick.
-/

namespace Macros

open Session

namespace Session

variable {τ : Type} {s t : Session Diary τ} {b : Bridge τ} (W : World) (ω : Weather τ)
  (draw : Session Diary τ → Binary64)

/-! Operations. -/

theorem Near.lull (h : Near W draw b s t) {s' : Session Diary τ} (hs : Lull s s') :
    Near W draw b s' t := by
  rcases h with h | h
  · exact .inl (h.lull hs)
  · obtain ⟨f, w, line, hf, hw, hline, hx⟩ := h.sent
    exact .inr ⟨hs.able h.left, h.right, h.calm, f, w, line, hf, hw, hline, hs.core.trans hx⟩

theorem Serene.running (hc : t.Serene) {f : Frame τ} (hf : t.top? = some f) : t.state = .running := by
  have hne : t.stack ≠ [] := List.ne_nil_of_mem (top?_mem hf)
  rw [hc.state]
  simp [hne]

/-- An advance of the disturbed run is nothing or one plain tick. -/
theorem advance_advanced (h : Near W draw b s t) (hn : t.stack.Pairwise (·.id < ·.id)) :
    Advanced t (Near W draw b · t) (s.advance (.ofOracle b (W.oracle ω)) b)
      (t.tick (.ofOracle b (W.oracle (.calm draw))) b) := by
  unfold advance
  rcases h with h | h
  · have h1 : Abreast s.begin t := ⟨(begin_core s).trans h.core, begin_able h.left, h.right, h.calm⟩
    have hs := begin_stopEvent h.left
    cases hf : s.begin.top? with
    | none =>
      unfold advanceTop
      rw [hf]
      exact .stays (.inl (h1.lull (Hush.setState _ _).toLull))
    | some f =>
      have htop : t.top? = some f.bare := by rw [h1.top?, hf]; rfl
      have hu := h.calm.frames _ (top?_mem htop)
      rw [tick_calm W draw (h.calm.running htop)]
      unfold advanceTop
      rw [hf, calmStart_top, htop]
      dsimp only
      cases hw : f.work with
      | native w =>
        have hn' : t.calmStart.stack.Pairwise (·.id < ·.id) := by
          rw [calmStart, (begin_stack _).1]
          exact hn
        have hw' : f.bare.work = .native w := hw
        rw [hw']
        cases advanceNative_advanced W ω draw (b := b) (calmStart_abreast h1) hn' hs
            (calmStart_stopEvent h.right) (top?_mem hf) hw with
        | endless he => exact .endless he
        | stuck he hp => exact .stuck he (calmStart_past t ▸ hp)
        | stays hx => exact .stays (.inl ⟨hx.core.trans (begin_core _), hx.left, h.right, h.calm⟩)
        | moves hx => exact .moves hx
      | script w =>
        have hw' : f.bare.work = .script w := hw
        rw [hw']
        exact advanceScript_sent W ω draw h1 hs hf hw (hu.line w hw)
  · obtain ⟨f, w, line, hf, hw, hline, hx⟩ := h.sent
    rw [tick_calm W draw (h.calm.running hf)]
    exact advance_ahead W ω draw ((begin_core s).trans hx) (begin_able h.left) (begin_stopEvent h.left)
      h.right h.calm hf hw hline

theorem recover_lull (s : Session Diary τ) : Lull s (s.recover (.ofOracle b (W.oracle ω))) := by
  have h1 := respond_lull W ω b .ready s
  unfold recover
  split
  · show Lull s (if ((W.oracle ω).respond b .ready s).1 then
      ((W.oracle ω).respond b .ready s).2.leaveNotReady else ((W.oracle ω).respond b .ready s).2)
    split
    · exact h1.trans (Hush.leaveNotReady _).toLull
    · exact h1
  · exact .refl s

theorem tick_advanced (h : Near W draw b s t) (hn : t.stack.Pairwise (·.id < ·.id)) :
    Advanced t (Near W draw b · t) (s.tick (.ofOracle b (W.oracle ω)) b)
      (t.tick (.ofOracle b (W.oracle (.calm draw))) b) := by
  have h1 := recover_lull W ω (b := b) s
  have h2 : Lull s (s.tickStart (.ofOracle b (W.oracle ω))) := h1.trans (respond_lull W ω b .ready _)
  rcases tick_cases (.ofOracle b (W.oracle ω)) b s with ⟨-, hx⟩ | ⟨-, hx⟩ | ⟨-, hx⟩ <;> rw [hx]
  · exact .stays (Near.lull W draw h h1)
  · exact .stays (Near.lull W draw h (h2.trans (Hush.enterNotReady _).toLull))
  · exact advance_advanced W ω draw (Near.lull W draw h h2) hn

theorem step_advanced (h : Near W draw b s t) (hn : t.stack.Pairwise (·.id < ·.id)) :
    Advanced t (Near W draw b · t) (s.step (.ofOracle b (W.oracle ω)) b)
      (t.tick (.ofOracle b (W.oracle (.calm draw))) b) := by
  have h2 : Lull s (s.stepStart (.ofOracle b (W.oracle ω))) := respond_lull W ω b .ready s
  have h3 := advance_advanced W ω draw (Near.lull W draw h h2) hn
  rcases step_cases (.ofOracle b (W.oracle ω)) b s with
    hx | ⟨-, hx⟩ | ⟨-, e, s', ha, hx⟩ | ⟨-, a, s', ha, hx⟩ <;> rw [hx]
  · exact .stays h
  · exact .stays (Near.lull W draw h (h2.trans (Hush.enterNotReady _).toLull))
  · rwa [ha] at h3
  · rw [ha] at h3
    have hp : Lull s' (if s'.state = .running && !s'.stack.isEmpty then s'.setState .paused else s') := by
      split
      · exact (Hush.setState s' _).toLull
      · exact .refl s'
    cases h3 with
    | endless he => contradiction
    | stuck he hlt => exact .stuck he (hp.past ▸ hlt)
    | stays hx => exact .stays (Near.lull W draw hx hp)
    | moves hx => exact .moves (hx.lull hp)

end Session

/-- What a schedule is made of. -/
inductive Move
  | tick
  | step
  | steer (c : Steering)

def Move.operation : Move → Operation
  | tick => .tick
  | step => .step
  | steer c => .control c.control

namespace Session

variable {τ : Type} {s t : Session Diary τ} {b : Bridge τ} (W : World) (ω : Weather τ)
  (draw : Session Diary τ → Binary64)

/-- An operation of a schedule is nothing to the run, or one plain tick. -/
theorem move_near (h : Near W draw b s t) (hn : t.stack.Pairwise (·.id < ·.id)) (x : Move)
    (hx : x.operation.Returns (.ofOracle b (W.oracle ω)) b s)
    (ht : t.past.length < (x.operation.apply (.ofOracle b (W.oracle ω)) b s).past.length →
      Operation.tick.Returns (.ofOracle b (W.oracle (.calm draw))) b t) :
    Near W draw b (x.operation.apply (.ofOracle b (W.oracle ω)) b s) t ∨
      Near W draw b (x.operation.apply (.ofOracle b (W.oracle ω)) b s)
        (t.tick (.ofOracle b (W.oracle (.calm draw))) b).2 := by
  have hadvanced : ∀ {z : Except Fault Bool × Session Diary τ}, z.1 ≠ .error .endless →
      (t.past.length < z.2.past.length →
        Operation.tick.Returns (.ofOracle b (W.oracle (.calm draw))) b t) →
      Advanced t (Near W draw b · t) z (t.tick (.ofOracle b (W.oracle (.calm draw))) b) →
      Near W draw b z.2 t ∨ Near W draw b z.2 (t.tick (.ofOracle b (W.oracle (.calm draw))) b).2 := by
    intro z hz ht ha
    cases ha with
    | endless he => exact absurd he hz
    | stuck he hp => exact absurd he (ht hp)
    | stays hs => exact .inl hs
    | moves hs => exact .inr (.inl hs)
  cases x with
  | tick => exact hadvanced hx ht (tick_advanced W ω draw h hn)
  | step => exact hadvanced hx ht (step_advanced W ω draw h hn)
  | steer c => exact .inl (Near.lull W draw h (Hush.steer b c s).toLull)

/-- No outcome is taken back. -/
theorem past_operate_le (hs : s.Sound) (xs : List Operation) :
    s.past.length ≤ (s.operate (.ofOracle b (W.oracle ω)) b xs).past.length :=
  past_length_le (Changes.journal_suffix (operate_changes hs xs))

theorem schedule_near (h : Near W draw b s t) (hs : s.Sound) (ht : t.Sound) (xs : List Move)
    (hx : s.Returns (.ofOracle b (W.oracle ω)) b (xs.map Move.operation))
    (hr : ∀ n < xs.length, (t.ticks (.ofOracle b (W.oracle (.calm draw))) b n).past.length <
        (s.operate (.ofOracle b (W.oracle ω)) b (xs.map Move.operation)).past.length →
      Operation.tick.Returns (.ofOracle b (W.oracle (.calm draw))) b
        (t.ticks (.ofOracle b (W.oracle (.calm draw))) b n)) :
    ∃ n ≤ xs.length, Near W draw b
      (s.operate (.ofOracle b (W.oracle ω)) b (xs.map Move.operation))
      (t.ticks (.ofOracle b (W.oracle (.calm draw))) b n) := by
  induction xs generalizing s t with
  | nil => exact ⟨0, Nat.le_refl _, h⟩
  | cons x xs ih =>
    have hs' := Changes.sound (operation_changes (o := W.oracle ω) (b := b) hs x.operation) hs
    have hle := past_operate_le W ω (b := b) hs' (xs.map Move.operation)
    have ht0 := fun hlt => hr 0 (Nat.succ_pos _) (Nat.lt_of_lt_of_le hlt hle)
    rcases move_near W ω draw h ht.numbered x hx.1 ht0 with h1 | h1
    · obtain ⟨n, hn, h2⟩ := ih h1 hs' ht hx.2 fun n hn => hr n (Nat.lt_succ_of_lt hn)
      exact ⟨n, Nat.le_succ_of_le hn, h2⟩
    · have ht' := Changes.sound (operation_changes (o := W.oracle (.calm draw)) (b := b) ht .tick) ht
      obtain ⟨n, hn, h2⟩ := ih h1 hs' ht' hx.2 fun n hn hlt => by
        have h3 := hr (n + 1) (Nat.succ_lt_succ hn)
        rw [ticks_tail] at h3
        exact h3 hlt
      refine ⟨n + 1, Nat.succ_le_succ hn, ?_⟩
      rw [ticks_tail]
      exact h2

/-- A macro has been started, and the diary is empty. -/
def begun (b : Bridge τ) (tree : Tree) (settings : Settings) (registry : Registry) (node : NodeId)
    (count : Option Int) : Session Diary τ :=
  (Control.run node count).apply b (.idle tree settings registry ⟨0, 0, 0⟩)

theorem begun_abreast (b : Bridge τ) (tree : Tree) (settings : Settings) (registry : Registry)
    (node : NodeId) (count : Option Int) :
    Abreast (begun b tree settings registry node count) (begun b tree settings registry node count) := by
  have h0 : Abreast (Session.idle (τ := τ) tree settings registry (⟨0, 0, 0⟩ : Diary))
      (Session.idle tree settings registry ⟨0, 0, 0⟩) :=
    abreast_self ⟨.inr rfl, Nat.le_refl _⟩ ⟨rfl, nofun⟩
  have h1 : Abreast ((Session.idle (τ := τ) tree settings registry (⟨0, 0, 0⟩ : Diary)).record
      (.calling (.run node count)))
      ((Session.idle tree settings registry ⟨0, 0, 0⟩).record (.calling (.run node count))) :=
    h0.record rfl rfl
  exact (run_alike h1 b node count).abreast.record rfl rfl

/-- Whatever the weather, and whatever the schedule: the lines that have come to an outcome are those that
some number of plain ticks bring to the same outcomes in calm weather, and the native macros stand where
they stand then. Random numbers need not be the same, as long as the operations return, and the plain ticks
that lead there. -/
theorem schedule_settles (W : World) (ω : Weather τ) (draw : Session Diary τ → Binary64) (b : Bridge τ)
    (tree : Tree) (settings : Settings) (registry : Registry) (node : NodeId) (count : Option Int)
    (xs : List Move)
    (hx : (begun b tree settings registry node count).Returns (W.client ω b) b (xs.map Move.operation))
    (hr : ∀ n < xs.length,
      ((begun b tree settings registry node count).ticks (W.client (.calm draw) b) b n).past.length <
        ((begun b tree settings registry node count).operate (W.client ω b) b
          (xs.map Move.operation)).past.length →
      Operation.tick.Returns (W.client (.calm draw) b) b
        ((begun b tree settings registry node count).ticks (W.client (.calm draw) b) b n)) :
    ∃ n ≤ xs.length,
      ((begun b tree settings registry node count).operate (W.client ω b) b (xs.map Move.operation)).past =
        ((begun b tree settings registry node count).ticks (W.client (.calm draw) b) b n).past ∧
      ((begun b tree settings registry node count).operate (W.client ω b) b (xs.map Move.operation)).places =
        ((begun b tree settings registry node count).ticks (W.client (.calm draw) b) b n).places := by
  have h0 := begun_abreast b tree settings registry node count
  have hs : (begun b tree settings registry node count).Sound :=
    Changes.sound (operation_changes (o := W.oracle ω) (b := b) (.idle tree settings registry _)
      (.control (.run node count))) (.idle tree settings registry _)
  obtain ⟨n, hn, h1⟩ := schedule_near W ω draw (.inl h0) hs hs xs hx hr
  have h2 := h1.outlook
  exact ⟨n, hn, congrArg Prod.fst h2, congrArg Prod.snd h2⟩

/-- A client that does whatever it is asked. -/
def willing : World where
  ask _ _ := .ok true
  condition _ := .ok ""
  ask_answered _ _ := answered_ok true
  condition_answered _ := answered_ok ""

/-- Every other attempt at a line that asks finds the client away; now and then the client is not ready, and
now and then the run is paused while a line is under way. -/
def gusty : Weather Lines where
  ready s := s.client.calls % 4 != 3
  outage s := if s.attempts.length % 2 = 1 then some "away" else none
  draw _ := .zero
  landing _ s := if s.client.calls % 5 = 4 then [.pause false] else []

def chorus : Bridge Lines := .listed [(1, "/send B"), (0, "# note"), (0, "/send C")]

/-- A native macro that starts a script, and goes round once more. -/
def circuit : Tree :=
  .ofDocument (.folder (.text "/") [.native "M" "/send A\n/runmacro S\n/loop 1", .script "S"])

def fitful : List Move := (List.replicate 8 [Move.tick, .tick, .step, .steer .resume]).flatten

theorem fitful_settles :
    ((begun chorus circuit .fresh .builtin 0 none).operate (willing.client gusty chorus) chorus
        (fitful.map Move.operation)).past.length = 6 ∧
      ((begun chorus circuit .fresh .builtin 0 none).operate (willing.client gusty chorus) chorus
        (fitful.map Move.operation)).attempts.length = 8 ∧
      ∃ n ≤ fitful.length,
        ((begun chorus circuit .fresh .builtin 0 none).operate (willing.client gusty chorus) chorus
            (fitful.map Move.operation)).past =
          ((begun chorus circuit .fresh .builtin 0 none).ticks
            (willing.client (.calm fun _ => .zero) chorus) chorus n).past ∧
        ((begun chorus circuit .fresh .builtin 0 none).operate (willing.client gusty chorus) chorus
            (fitful.map Move.operation)).places =
          ((begun chorus circuit .fresh .builtin 0 none).ticks
            (willing.client (.calm fun _ => .zero) chorus) chorus n).places := by
  refine ⟨by decide +kernel, by decide +kernel, ?_⟩
  have hr : (begun chorus circuit .fresh .builtin 0 none).Returns
      (willing.client (.calm fun _ => .zero) chorus) chorus
      (List.replicate fitful.length .tick) := by decide +kernel
  exact schedule_settles willing gusty (fun _ => .zero) chorus circuit .fresh .builtin 0 none fitful
    (by decide +kernel) fun n hn _ => returns_ticks hr hn

end Session

end Macros
