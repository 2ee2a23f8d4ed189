import Macros.Proofs.Scheduler.Awaited
import Macros.Proofs.Scheduler.LoopLine
import Macros.Proofs.Scheduler.Late
import Macros.Proofs.Scheduler.Planned
import Macros.Proofs.Scheduler.Refused

/-!
What goes wrong while a frame is advanced. It ends with a note in the log, and with the frame failed, or
going on, or waiting for the client; the driver itself raises a fault only where an option that decides
what becomes of a line cannot be read.
-/

namespace Macros

open Relation Session

variable {σ τ : Type}

namespace Flight

variable {c : Client σ τ} {o : Oracle σ τ} {b : Bridge τ} {l : Flight σ τ} {t u : Session σ τ}
  {x : Outcome}

/-- What running the line comes to, before faults are looked at. -/
def execution (l : Flight σ τ) (c : Client σ τ) (b : Bridge τ) : Except Fault Outcome × Session σ τ :=
  (Execution.execute l.session.settings l.line).run.run (answer c b)
    (l.session.record (.handed l.frame.id l.line))

end Flight

namespace Session

variable {c : Client σ τ} {o : Oracle σ τ} {b : Bridge τ} {s t u : Session σ τ} {f g : Frame τ}
  {l : Flight σ τ} {x : Outcome}

/-- What applying the settings to an outcome comes to. -/
inductive Settles (t : Session σ τ) (id : Nat) (x : Outcome) :
    Except Fault Bool × Session σ τ → Prop
  | gone (there : t.owns id = false) : Settles t id x (.ok false, t)
  | fine {g : Frame τ} (there : t.frame? id = some g) (ok : x.ok) : Settles t id x (.ok true, t)
  | unread {g : Frame τ} {e : OptionError} (there : t.frame? id = some g)
    (unread : t.settings.isStopWorthy x = .error e) : Settles t id x (.error (.option e), t)
  | stops {g : Frame τ} {m : String} (there : t.frame? id = some g)
    (stops : t.settings.isStopWorthy x = .ok true) :
    Settles t id x (.ok false, (t.log .error m).pop g .failed)
  | goesOn {g : Frame τ} {m : String} (there : t.frame? id = some g) (failed : x.ok = false)
    (goesOn : t.settings.isStopWorthy x = .ok false) : Settles t id x (.ok true, t.log .warning m)

theorem settles (t : Session σ τ) (id : Nat) (i : Instruction) (x : Outcome) :
    Settles t id x (t.settle id i x) := by
  unfold settle
  split
  · next hf => exact .gone (owns_of_frame?_none hf)
  · next g hf =>
    split
    · next hx => exact .fine hf hx
    · next hx =>
      have hx : x.ok = false := by simpa using hx
      dsimp only
      split
      · next he => exact .unread hf he
      · next he => exact .stops hf he
      · next he => exact .goesOn hf hx he

theorem owns_of_frame? {id : Nat} (h : t.frame? id = some g) : t.owns id :=
  (owns_iff t id).2 ⟨g, frame?_some h⟩

/-- A tick or a step comes to advance a frame, from a session and with a result. -/
inductive Advances (c : Client σ τ) (b : Bridge τ) (s u : Session σ τ) :
    Except Fault Bool × Session σ τ → Prop
  | tick (running : (s.recover c).state = .running) (ready : (c.ready (s.recover c)).1)
    (start : u = s.tickStart c) : Advances c b s u (s.tick c b)
  | step (paused : s.state = .paused) (there : ¬ s.stack.isEmpty) (ready : (c.ready s).1)
    (start : u = s.stepStart c) : Advances c b s u (s.step c b)

/-- A step that has advanced a frame leaves the run paused. -/
theorem Advances.advance {out : Except Fault Bool × Session σ τ} (h : Advances c b s u out) :
    out.1 = (u.advance c b).1 ∧
      (out.2 = (u.advance c b).2 ∨ out.2 = (u.advance c b).2.setState .paused) := by
  cases h with
  | tick hr hy hu =>
    have ht : s.tick c b = u.advance c b := by
      unfold Session.tick
      simp [hr, hy, hu, tickStart]
    rw [ht]
    exact ⟨rfl, .inl rfl⟩
  | step hp hs hy hu =>
    have hu' : (c.ready s).2 = u := hu.symm
    unfold Session.step
    simp only [hp, hs, hy, hu', ne_eq, not_true_eq_false, decide_false, Bool.false_or, Bool.not_true,
      Bool.false_eq_true, ↓reduceIte]
    cases hx : u.advance c b with
    | mk x t =>
      cases x with
      | error e => exact ⟨rfl, .inl rfl⟩
      | ok a =>
        refine ⟨rfl, ?_⟩
        dsimp only
        split
        · exact .inr rfl
        · exact .inl rfl

/-- What becomes of a frame where something went wrong. -/
inductive Aftermath
  | fails
  | goesOn
  | waits

/-- What becomes of a frame whose line has failed, as the settings have it. -/
def aftermathOf (stop : Bool) : Aftermath := if stop then .fails else .goesOn

/-- A frame has been taken off, and observers were told how it ended. -/
def Ended (s s' : Session σ τ) (id : Nat) (r : FrameResult) : Prop :=
  ∃ es, s'.journal = es ++ s.journal ∧ .popped id r ∈ es ∧ ∃ name, .finished name r ∈ es

/-- What is to become of a frame has come about. A frame that a stop has taken away is left alone. -/
def Aftermath.Met (t : Session σ τ) (id : Nat) (out : Except Fault Bool × Session σ τ) : Aftermath → Prop
  | .fails => out.1 = .ok true ∧ out.2.owns id = false ∧ (t.owns id → Ended t out.2 id .failed)
  | .goesOn => out.1 = .ok true ∧ (t.owns id → out.2.owns id ∨ Ended t out.2 id .completed)
  | .waits => out.1 = .ok false ∧ (t.owns id → out.2.owns id)

variable {id : Nat} {r : FrameResult}

theorem pop_ended (s : Session σ τ) (g : Frame τ) (r : FrameResult) : Ended s (s.pop g r) g.id r := by
  refine ⟨s.popNews g r, by rw [pop_eq], ?_, s.nameOf g, ?_⟩
  · simp [popNews]
  · simp [popNews]

theorem Ended.after (h : Ended t u id r) (hs : s.journal <:+ t.journal) : Ended s u id r := by
  obtain ⟨es, hj, hp, name, hf⟩ := h
  obtain ⟨es', hj'⟩ := hs
  exact ⟨es ++ es', by rw [hj, ← hj', List.append_assoc], List.mem_append_left _ hp, name,
    List.mem_append_left _ hf⟩

theorem Ended.before (h : Ended s t id r) (hs : t.journal <:+ u.journal) : Ended s u id r := by
  obtain ⟨es, hj, hp, name, hf⟩ := h
  obtain ⟨es', hj'⟩ := hs
  exact ⟨es' ++ es, by rw [← hj', hj, List.append_assoc], List.mem_append_right _ hp, name,
    List.mem_append_right _ hf⟩

theorem pop_suffix (s : Session σ τ) (g : Frame τ) (r : FrameResult) :
    s.journal <:+ (s.pop g r).journal := by
  rw [pop_eq]
  exact List.suffix_append _ _

theorem popIfDone_met (s : Session σ τ) (id : Nat) (h : s.owns id) :
    s.journal <:+ (s.popIfDone id).journal ∧
      ((s.popIfDone id).owns id ∨ Ended s (s.popIfDone id) id .completed) := by
  unfold popIfDone
  split
  · exact ⟨List.suffix_refl _, .inl h⟩
  · next f _ =>
    split
    · exact ⟨List.suffix_refl _, .inl h⟩
    · next hi =>
      have hi : f.id = id := by simpa using hi
      split
      · split
        · exact ⟨pop_suffix s f _, .inr (hi ▸ pop_ended s f .completed)⟩
        · exact ⟨List.suffix_refl _, .inl h⟩
      · exact ⟨List.suffix_refl _, .inl h⟩

/-- The failure of a line of a frame has been judged: it is noted, unless a stop has taken the frame away,
and what the settings say has come about. -/
structure Judged (t : Session σ τ) (id : Nat) (stop : Bool) (u : Session σ τ) : Prop where
  later : t.journal <:+ u.journal
  noted : t.owns id → Noted t u
  met : (aftermathOf stop).Met t id (.ok true, u)

theorem Noted.after (h : Noted t u) (hs : s.journal <:+ t.journal) : Noted s u := by
  obtain ⟨es, hj, message, hm⟩ := h
  obtain ⟨es', hj'⟩ := hs
  exact ⟨es ++ es', by rw [hj, ← hj', List.append_assoc], message, by simpa using hm.imp .inl .inl⟩

theorem Judged.after {stop : Bool} (h : Judged t id stop u) (hs : s.journal <:+ t.journal)
    (ho : s.owns id = t.owns id) : Judged s id stop u where
  later := hs.trans h.later
  noted hown := (h.noted (ho ▸ hown)).after hs
  met := by
    have hm := h.met
    cases stop with
    | false => exact ⟨rfl, fun hown => (hm.2 (ho ▸ hown)).imp_right fun he => he.after hs⟩
    | true => exact ⟨rfl, hm.2.1, fun hown => (hm.2.2 (ho ▸ hown)).after hs⟩

theorem Judged.popIfDone (h : Judged t id false u) (hu : u.owns id) :
    Judged t id false (u.popIfDone id) := by
  obtain ⟨h1, h2⟩ := popIfDone_met u id hu
  exact ⟨h.later.trans h1, fun ho => (h.noted ho).suffix h1,
    rfl, fun _ => h2.imp_right fun he => he.after h.later⟩

theorem enterNotReady_waits (s : Session σ τ) :
    s.journal <:+ s.enterNotReady.journal ∧ s.enterNotReady.stack = s.stack := by
  rcases enterNotReady_cases s with he | ⟨-, -, hr⟩
  · rw [he]
    exact ⟨List.suffix_refl _, rfl⟩
  · obtain ⟨es, -, he⟩ := hr
    rw [he, setState_eq]
    exact ⟨(List.suffix_append _ _).trans (List.suffix_append _ _), rfl⟩

theorem setState_suffix (s : Session σ τ) (x : RunState) : s.journal <:+ (s.setState x).journal := by
  rw [setState_eq]
  exact List.suffix_append _ _

theorem setState_owns (s : Session σ τ) (x : RunState) (id : Nat) :
    (s.setState x).owns id = s.owns id := by
  rw [setState_eq]
  rfl

theorem Aftermath.Met.setState {v : Aftermath} {a : Except Fault Bool} (h : v.Met t id (a, u))
    (x : RunState) : v.Met t id (a, u.setState x) := by
  have hj := setState_suffix u x
  have ho := setState_owns u x id
  cases v with
  | fails => exact ⟨h.1, ho.trans h.2.1, fun hown => (h.2.2 hown).before hj⟩
  | goesOn =>
    exact ⟨h.1, fun hown => (h.2 hown).imp ho.trans fun he => he.before hj⟩
  | waits => exact ⟨h.1, fun hown => ho.trans (h.2 hown)⟩

end Session

/-- A client that refuses whatever it is asked. -/
def Oracle.fruitless {σ τ : Type} : Oracle σ τ := fun k s =>
  match k with
  | .ask _ => (.ok false, [], s.client)
  | k => (k.answer true, [], s.client)

/-- Whether the line fails while its frame stands, with an outcome the options say to stop at. -/
def Flight.fails {σ τ : Type} (l : Flight σ τ) (c : Client σ τ) (b : Bridge τ) : Bool :=
  match l.execution c b with
  | (.ok x, t) => !x.ok && t.owns l.frame.id && decide (t.settings.isStopWorthy x = .ok true)
  | _ => false

namespace Session

end Session

end Macros
