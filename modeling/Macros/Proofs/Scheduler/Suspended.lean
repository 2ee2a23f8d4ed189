import Macros.Proofs.Scheduler.Awaited
import Macros.Proofs.Scheduler.Course

/-!
The scripts of the frames on the stack. Between operations each of them waits to be resumed: a script that
is over goes with its frame, in the same advance. So what a resumption comes to is always what the script
itself comes to.
-/

namespace Macros

open Session

variable {σ τ : Type} {o : Oracle σ τ} {b : Bridge τ}

/-- The script can be resumed. -/
structure ScriptRun.Suspended (r : ScriptRun τ) : Prop where
  finished : r.finished = false
  stepping : r.stepping = false

/-- A step is under way. -/
def ScriptRun.enter (r : ScriptRun τ) : ScriptRun τ := { r with started := true, stepping := true }

/-- The step that is taken when the script is resumed. -/
def ScriptWork.dueStep (b : Bridge τ) (w : ScriptWork τ) : Advance τ :=
  b.interpreter.send w.run.script (if w.run.started then w.pendingResult else .null)

theorem ScriptRun.Suspended.begin {w : ScriptWork τ} (h : w.run.Suspended) :
    w.run.begin b.interpreter w.pendingResult = (w.run.enter, .under (w.dueStep b)) := by
  simp [ScriptRun.begin, h.finished, h.stepping, ScriptRun.enter, ScriptWork.dueStep]

namespace Session

variable {s t : Session σ τ} {f : Frame τ} {w : ScriptWork τ} {P Q : Nat → ScriptRun τ → Prop} {id : Nat}

/-- What the scripts of all frames are like. -/
def AllScripts (P : Nat → ScriptRun τ → Prop) (s : Session σ τ) : Prop :=
  ∀ f ∈ s.stack, ∀ w, f.work = .script w → P f.id w.run

/-- All scripts can be resumed. -/
abbrev Suspended (s : Session σ τ) : Prop := s.AllScripts fun _ r => r.Suspended

theorem AllScripts.sub (h : s.AllScripts P) (hs : t.stack ⊆ s.stack) : t.AllScripts P := fun f hf => h f (hs hf)

theorem AllScripts.modify {g : Frame τ → Frame τ} (h : s.AllScripts P) (id : Nat) (hi : ∀ f, (g f).id = f.id)
    (hPQ : ∀ j r, j ≠ id → P j r → Q j r)
    (hg : ∀ f w, (g f).work = .script w → ∃ w', f.work = .script w' ∧ (P id w'.run → Q id w.run)) :
    (s.modify id g).AllScripts Q := by
  intro f' hf' w hw
  obtain ⟨f, hf, rfl⟩ := List.mem_map.1 hf'
  split at hw
  · next hid =>
    obtain ⟨w', hw', hq⟩ := hg f w hw
    rw [if_pos hid, hi, hid]
    exact hq (hid ▸ h f hf w' hw')
  · next hid =>
    rw [if_neg hid]
    exact hPQ _ _ hid (h f hf w hw)

theorem AllScripts.modifyScript (h : s.AllScripts P) (id : Nat) (m : ScriptWork τ → ScriptWork τ)
    (hPQ : ∀ j r, j ≠ id → P j r → Q j r) (hm : ∀ w, P id w.run → Q id (m w).run) :
    (s.modifyScript id m).AllScripts Q := by
  refine h.modify id (fun f => by split <;> rfl) hPQ fun f w hw => ?_
  split at hw
  · next hf => rw [hf] at hw; cases hw
  · next w' hf => cases hw; exact ⟨w', hf, hm w'⟩

theorem AllScripts.pop (h : s.AllScripts P) (f : Frame τ) (r : FrameResult) : (s.pop f r).AllScripts P := by
  rw [pop_eq]
  exact h.sub (List.filter_subset_self _)

variable (hP : ∀ id name x, P id (.create name x))
include hP

theorem AllScripts.launch (h : s.AllScripts P) {es : List Event} (node : NodeId) (text : String)
    {work : Work τ} (hw : work.Begins es) :
    (Session.push { s with journal := es ++ s.journal } node text work).AllScripts P := by
  rw [push_eq]
  refine List.forall_mem_append.2 ⟨h, fun f hf v hv => ?_⟩
  rw [List.mem_singleton.1 hf] at hv
  cases hw with
  | native is => cases hv
  | script es r name x =>
    cases hv
    exact hP _ name x

theorem allScripts_upholds : Upholds fun s t : Session σ τ => s.AllScripts P → t.AllScripts P where
  refl _ := id
  trans h h' := fun hs => h' (h hs)
  client _ _ h := h
  note _ _ _ h := h
  told _ _ _ _ h := h
  launch _ _ node text _ _ hw h := h.launch hP node text hw
  state s x h := by rw [setState_eq]; exact h
  flags _ _ _ _ h := h
  pop r _ h := h.pop _ r
  halt s h := clear_of_pop (R := fun s t => s.AllScripts P → t.AllScripts P) (fun _ => id)
    (fun _ _ _ h h' hs => h' (h hs)) (fun _ f h => h.pop f _) { s with stopEvent := true } h
  mark _ id _ _ h := h.modify id (fun _ => rfl) (fun _ _ _ h => h) fun _ w hw => ⟨w, hw, fun h => h⟩
  native _ id m h := h.modify id (fun f => by split <;> rfl) (fun _ _ _ h => h) fun f w hw => by
    split at hw
    · cases hw
    · exact ⟨w, hw, fun h => h⟩
  script _ id m hm h := h.modifyScript id m (fun _ _ _ h => h) fun w hw => by rwa [hm w]

omit hP

/-! A step of a script. -/

/-- The script of a frame has been resumed, and is about to come to something. -/
def stepped (c : Client σ τ) (b : Bridge τ) (s : Session σ τ) (f : Frame τ) (w : ScriptWork τ) :
    Session σ τ :=
  hostCalls c (w.dueStep b).hostCalls
    ((s.record (.sent f.id (if w.run.started then w.pendingResult else .null))).modifyScript f.id
      fun u => { u with run := w.run.enter })

theorem scriptStep_eq (c : Client σ τ) (h : w.run.Suspended) : s.scriptStep c b f w =
    ((w.run.enter.finish (w.dueStep b).signal).2, (s.stepped c b f w).modifyScript f.id
      fun u => { u with run := (u.run.finish (w.dueStep b).signal).1 }) := by
  unfold scriptStep
  rw [h.begin]
  rfl

/-- The scripts can be resumed, but for one that is stepping. -/
def SteppingAt (id j : Nat) (r : ScriptRun τ) : Prop := r.Suspended ∨ j = id ∧ r.finished = false

theorem stepped_allScripts (hs : s.Sound) (h : s.Suspended) (f : Frame τ) (hw : w.run.Suspended) :
    (s.stepped (.ofOracle b o) b f w).AllScripts (SteppingAt f.id) := by
  let v := if w.run.started then w.pendingResult else .null
  have h1 : (s.record (.sent f.id v)).Suspended := h
  have h2 := h1.modifyScript (Q := SteppingAt f.id) f.id (fun u => { u with run := w.run.enter })
    (fun _ _ _ h => .inl h) fun _ _ => .inr ⟨rfl, hw.finished⟩
  have hs1 : (s.record (.sent f.id v)).Sound := hs.of_eq rfl rfl rfl rfl
  have hs2 := Changes.sound (script_change (o := o) _ f.id fun u => { u with run := w.run.enter }) hs1
  exact ((allScripts_upholds fun _ _ _ => .inl ⟨rfl, rfl⟩).admits b o).hostCalls _ hs2 h2

/-- A script that yields can be resumed again. -/
theorem SteppingAt.yielded (h : s.AllScripts (SteppingAt id)) (v : Value) (next : τ) :
    (s.modifyScript id fun u => { u with run := (u.run.finish (.yielded v next)).1 }).Suspended := by
  refine h.modifyScript id _ (fun j r hj hr => hr.resolve_right fun hr => hj hr.1) fun u hu => ⟨?_, rfl⟩
  rcases hu with hu | hu
  · exact hu.finished
  · exact hu.2

/-- All scripts can be resumed, but for one that is over. -/
def EndedAt (id j : Nat) (r : ScriptRun τ) : Prop := j ≠ id → r.Suspended

theorem SteppingAt.ended (h : s.AllScripts (SteppingAt id)) (m : ScriptWork τ → ScriptWork τ) :
    (s.modifyScript id m).AllScripts (EndedAt id) :=
  h.modifyScript id m (fun _ _ hj hr _ => hr.resolve_right fun hr => hj hr.1) fun _ _ hne => absurd rfl hne

/-- The frame of a script that is over goes. -/
theorem EndedAt.popIfOwned (h : s.AllScripts (EndedAt id)) (r : FrameResult) : (s.popIfOwned id r).Suspended := by
  have h1 := (allScripts_upholds fun _ _ _ _ => ⟨rfl, rfl⟩).popIfOwned s id r h
  refine fun g hg w hw => h1 g hg w hw fun he => ?_
  have hown := (owns_iff _ id).2 ⟨g, hg, he⟩
  unfold Session.popIfOwned at hown
  split at hown
  · next f hf =>
    obtain ⟨-, rfl⟩ := frame?_some hf
    rw [pop_owns] at hown
    cases hown
  · next hf =>
    rw [owns_of_frame?_none hf] at hown
    cases hown

theorem advanceScript_returned (c : Client σ τ) (h : w.run.Suspended) (hp : w.pendingLine = none)
    (hx : (w.dueStep b).signal = .returned) : s.advanceScript c b f w =
      (.ok true, (s.scriptStep c b f w).2.popIfOwned f.id .completed) := by
  unfold advanceScript
  rw [hp]
  simp only [scriptStep_eq c h, hx]
  rfl

theorem advanceScript_failed (c : Client σ τ) (h : w.run.Suspended) (hp : w.pendingLine = none)
    {why : ScriptFailure} (hx : (w.dueStep b).signal = .failed why) : s.advanceScript c b f w =
      (.ok true, ((s.scriptStep c b f w).2.log .error
        ("Script error: " ++ why.text w.run.name)).popIfOwned f.id .failed) := by
  unfold advanceScript
  rw [hp]
  simp only [scriptStep_eq c h, hx]
  rfl

theorem suspended_governs (b : Bridge τ) (o : Oracle σ τ) :
    Governs b o fun s t : Session σ τ => s.Suspended → t.Suspended where
  toUpholds := allScripts_upholds fun _ _ _ => ⟨rfl, rfl⟩
  advanceScript {s f w} hs hf hw h := by
    have hup : Upholds fun s t : Session σ τ => s.Suspended → t.Suspended :=
      allScripts_upholds fun _ _ _ => ⟨rfl, rfl⟩
    have hrun := h f hf w hw
    cases hp : w.pendingLine with
    | some line => exact hup.again hs hp f h
    | none =>
      have h1 := stepped_allScripts (b := b) (o := o) hs h f hrun
      have hstep := scriptStep_eq (s := s) (b := b) (f := f) (.ofOracle b o) hrun
      cases hx : (w.dueStep b).signal with
      | yielded v next =>
        refine hup.onward hp (Changes.sound (scriptStep_spec (o := o) (b := b) hs hf w).1 hs) ?_
        rw [hstep, hx]
        exact SteppingAt.yielded h1 v next
      | returned =>
        rw [advanceScript_returned _ hrun hp hx, hstep]
        exact EndedAt.popIfOwned (SteppingAt.ended h1 _) .completed
      | failed why =>
        rw [advanceScript_failed _ hrun hp hx, hstep]
        exact EndedAt.popIfOwned (s := Session.log _ _ _) (SteppingAt.ended h1 _) .failed
  close _ h := h
  edit _ _ _ h := h

/-- In every session that comes about the scripts can be resumed. -/
theorem Reachable.suspended (h : s.Reachable (.ofOracle b o) b) : s.Suspended :=
  (suspended_governs b o).reachable (fun _ _ _ _ => nofun) h

end Session

end Macros
