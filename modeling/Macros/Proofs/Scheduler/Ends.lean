import Macros.Proofs.Scheduler.Heeds

/-!
What follows a line. The driver keeps the run state in which the line has left the session, unless
the run has ended, the client is gone, or the frame was to be paused at its next loop line.
-/

namespace Macros

namespace Session

open Journal

variable {σ τ : Type} {s s' s'' : Session σ τ} {P Q : Prop}

/-- The run has ended, or waits for the client, or was paused by its loop line, or is in the run state
`x`. -/
def Kept (x : RunState) (paused : Prop) (s : Session σ τ) : Prop :=
  (s.stack = [] ∧ s.state = .idle) ∨ (s.state = .notReady ∧ s.prior = x) ∨
    (paused ∧ s.state = .paused) ∨ s.state = x

/-- The driver ends a tick, and keeps the run state. -/
structure Ends (paused : Prop) (s s' : Session σ τ) : Prop where
  calm : Calm s s'
  kept : s.Live → Kept s.state paused s'

theorem Ends.refl (s : Session σ τ) : Ends P s s := ⟨.refl s, fun _ => .inr (.inr (.inr rfl))⟩

theorem Ends.mono (h : Ends P s s') (hpq : P → Q) : Ends Q s s' :=
  ⟨h.calm, fun hl => (h.kept hl).imp_right (.imp_right (.imp_left (.imp_left hpq)))⟩

/-- Something that does not touch the run state comes first. -/
theorem Ends.after (h : Ends P s' s'') (hc : Calm s s') (hs : s'.state = s.state)
    (hm : s'.marks = s.marks) : Ends P s s'' := by
  refine ⟨hc.trans h.calm, fun hl => ?_⟩
  rw [← hs]
  refine h.kept ⟨by rw [hs]; exact hl.1, fun hn => hl.2 ?_⟩
  exact List.map_eq_nil_iff.1 (hm.symm.trans (by rw [marks, hn]; rfl))

theorem Ends.after_remark (h : Ends P s' s'') (hr : Remarked s s') : Ends P s s'' :=
  h.after hr.calm hr.state (by rw [marks, marks, hr.stack])

theorem Ends.remark (h : Ends P s s') (hr : Remarked s' s'') : Ends P s s'' := by
  refine ⟨h.calm.trans hr.calm, fun hl => ?_⟩
  obtain ⟨es, -, rfl⟩ := hr
  exact h.kept hl

theorem modifyNative_marks (s : Session σ τ) (id : Nat) (g : NativeWork → NativeWork) :
    (s.modifyNative id g).marks = s.marks :=
  modifyNative_map (fun _ _ => rfl) s id g

theorem modifyScript_marks (s : Session σ τ) (id : Nat) (g : ScriptWork τ → ScriptWork τ) :
    (s.modifyScript id g).marks = s.marks :=
  modifyScript_map (fun _ _ => rfl) s id g

theorem Ends.after_modifyNative {id : Nat} {g : NativeWork → NativeWork}
    (h : Ends P (s.modifyNative id g) s') : Ends P s s' :=
  h.after (.refl s) rfl (modifyNative_marks s id g)

theorem Ends.after_modifyScript {id : Nat} {g : ScriptWork τ → ScriptWork τ}
    (h : Ends P (s.modifyScript id g) s') : Ends P s s' :=
  h.after (.refl s) rfl (modifyScript_marks s id g)

theorem Kept.pop {x : RunState} (h : Kept x P s) (f : Frame τ) (r : FrameResult) :
    Kept x P (s.pop f r) := by
  rw [pop_eq]
  by_cases he : s.without f.id = []
  · exact .inl ⟨he, by simp [he]⟩
  · rcases h with ⟨hs, -⟩ | h | h | h
    · exact absurd (by simp [without, hs]) he
    · exact .inr (.inl (by simpa [he] using h))
    · exact .inr (.inr (.inl (by simpa [he] using h)))
    · exact .inr (.inr (.inr (by simpa [he] using h)))

theorem Ends.pop (h : Ends P s s') (f : Frame τ) (r : FrameResult) : Ends P s (s'.pop f r) :=
  ⟨h.calm.trans (pop_calm s' f r), fun hl => (h.kept hl).pop f r⟩

theorem Ends.popIfDone (h : Ends P s s') (id : Nat) : Ends P s (s'.popIfDone id) := by
  rcases popIfDone_cases s' id with he | ⟨f, -, he⟩
  · rw [he]
    exact h
  · rw [he]
    exact h.pop f .completed

theorem Ends.popIfOwned (h : Ends P s s') (id : Nat) (r : FrameResult) :
    Ends P s (s'.popIfOwned id r) := by
  rcases popIfOwned_cases s' id r with he | ⟨f, -, he⟩
  · rw [he]
    exact h
  · rw [he]
    exact h.pop f r

theorem halt_ends (h : s.Sound) : Ends P s s.halt := by
  obtain ⟨h1, -, h2⟩ := halt_spec (o := .still) h
  refine ⟨?_, fun _ => .inl ⟨h2, (h1.sound h).idle_iff.2 h2⟩⟩
  exact clear_of_pop Calm.refl (fun _ _ _ => .trans) (fun s f => pop_calm s f .stopped)
    { s with stopEvent := true }

theorem loopFlags_ends (h : s.Sound) (id : Nat) :
    Ends ((id, true) ∈ s.marks) s (s.loopFlags id) := by
  rcases loopFlags_cases s id with he | ⟨t, hr, he⟩ | ⟨f, t, hf, hp, rfl, hr⟩
  · rw [he]
    exact .refl s
  · rw [he]
    exact Ends.after_remark (halt_ends ((hr.changes (o := .still)).sound h)) hr
  · obtain ⟨hf, hi⟩ := frame?_some hf
    refine Ends.remark ?_ hr
    constructor
    · split
      · exact setState_calm _ _
      · exact .refl s
    · intro hl
      refine .inr (.inr (.inl ⟨List.mem_map.2 ⟨f, hf, by rw [hi, hp]⟩, ?_⟩))
      split
      · rw [setState_eq]
      · next hn => exact hl.1.resolve_left hn

theorem loopBoundary_ends (h : s.Sound) {id k : Nat} {i : Instruction} (hl : s.HoldsLine id k i)
    (hc : i.command = "loop") :
    Ends ((id, true) ∈ s.marks) s (s.loopBoundary id k (loopCount i)).2 := by
  rcases loopBoundary_cases s id k (loopCount i) with ht | ht | ⟨t, hr, ht⟩
  · rw [ht]
    exact .refl s
  · rw [ht]
    exact loopFlags_ends h id
  · have h1 : Change .still s (s.modifyNative id fun w => passLoop w k (loopCount i)) :=
      .passLoop s id k _ fun f hf hi w hw => ⟨i, hl f hf hi w hw, hc, rfl⟩
    have hs : t.Sound := (hr.changes (o := .still)).sound (h1.sound h)
    have hm : t.marks = s.marks := by rw [marks, hr.stack, ← marks, modifyNative_marks]
    rcases ht with ht | ht
    · rw [ht]
      exact ((Ends.refl t).after_remark hr).after_modifyNative
    · rw [ht, ← hm]
      exact ((loopFlags_ends hs id).after_remark hr).after_modifyNative

theorem settle_ends (s : Session σ τ) (id : Nat) (i : Instruction) (x : Outcome) :
    Ends P s (s.settle id i x).2 := by
  rcases settle_cases s id i x with hr | ⟨t, f, -, hr, he⟩
  · exact (Ends.refl s).remark hr
  · rw [he]
    exact ((Ends.refl t).pop f .failed).after_remark hr

theorem enterNotReady_ends (s : Session σ τ) : Ends P s s.enterNotReady := by
  rcases enterNotReady_cases s with he | ⟨-, -, hr⟩
  · rw [he]
    exact .refl s
  · refine Ends.remark ?_ hr
    constructor
    · exact setState_calm { s with prior := s.state } .notReady
    · intro _
      rw [setState_eq]
      exact .inr (.inl ⟨rfl, rfl⟩)

theorem afterNative_ends (h : s.Sound) {id k : Nat} {i : Instruction} (hl : s.HoldsLine id k i)
    (x : LineResult) :
    Ends ((id, true) ∈ s.marks ∧ i.command = "loop") s (s.afterNative id k i x).2 := by
  rcases afterNative_cases s id k i x with ha | ha | ⟨y, ha⟩ | ⟨t, u, hr, hu, ha⟩
  · rw [ha]
    exact .refl s
  · rw [ha]
    exact ((enterNotReady_ends _).remark (remarked_emitStatus _)).after_modifyNative
  · rw [ha]
    exact settle_ends s id i y
  · have h1 : Ends ((id, true) ∈ s.marks ∧ i.command = "loop") s u := by
      rcases hu with rfl | ⟨hc, rfl⟩
      · exact (Ends.refl s).remark hr
      · have ht : t.Sound := (hr.changes (o := .still)).sound h
        refine ((loopBoundary_ends ht (hl.remarked hr) hc).after_remark hr).mono fun hm => ⟨?_, hc⟩
        rwa [marks, hr.stack] at hm
    rcases ha with ha | ha
    · rw [ha]
      exact h1
    · rw [ha]
      exact h1.popIfDone id

theorem afterScript_ends (h : s.Sound) (id : Nat) (line : String) (i : Instruction)
    (x : LineResult) :
    Ends ((id, true) ∈ s.marks ∧ i.command = "loop") s (s.afterScript id line i x).2 := by
  rcases afterScript_cases s id line i x with ha | ha | ⟨y, t, rfl, ha | ⟨hc, u, hr, ha⟩⟩
  · rw [ha]
    exact .refl s
  · rw [ha]
    exact (enterNotReady_ends _).after_modifyScript
  · rw [ha]
    exact (settle_ends _ id i y).after_modifyScript
  · have h1 := script_change (o := .still) s id fun w => { w with pendingResult := .flag y.ok }
    have hu : u.Sound := Changes.sound (h1.trans hr.changes) h
    rw [ha]
    refine ((loopFlags_ends hu id).after_remark hr).after_modifyScript.mono fun hm => ⟨?_, hc⟩
    rwa [marks, hr.stack, ← marks, modifyScript_marks] at hm

end Session

end Macros
