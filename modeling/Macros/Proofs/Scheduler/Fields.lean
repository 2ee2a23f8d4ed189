import Macros.Scheduler.Operation
import Mathlib.Data.List.Nodup

/-!
What the elementary updates of a session do to its fields. A frame that is taken off or put on
changes the stack, the run state and the journal, and nothing else but the mark of a fresh run.
-/

namespace Macros

namespace Session

variable {σ τ : Type}

/-- The stack without a frame. -/
def without (s : Session σ τ) (id : Nat) : List (Frame τ) := s.stack.filter (·.id != id)

theorem eq_of_id {fs : List (Frame τ)} {f g : Frame τ} (h : fs.Pairwise (·.id < ·.id))
    (hf : f ∈ fs) (hg : g ∈ fs) (hi : f.id = g.id) : f = g := by
  have hd : fs.Pairwise (·.id ≠ ·.id) := h.imp fun hlt => Nat.ne_of_lt hlt
  exact List.inj_on_of_nodup_map (List.pairwise_map.2 hd) hf hg hi

/-- A change of one frame that a projection does not see. -/
theorem modify_map {α : Type} {p : Frame τ → α} (s : Session σ τ) (id : Nat)
    {g : Frame τ → Frame τ} (hg : ∀ f, p (g f) = p f) :
    (s.modify id g).stack.map p = s.stack.map p := by
  simp only [Session.modify, List.map_map]
  refine List.map_congr_left fun f _ => ?_
  dsimp only [Function.comp]
  split
  · exact hg f
  · rfl

theorem modifyNative_map {α : Type} {p : Frame τ → α} (hp : ∀ f w, p { f with work := w } = p f)
    (s : Session σ τ) (id : Nat) (g : NativeWork → NativeWork) :
    (s.modifyNative id g).stack.map p = s.stack.map p := by
  refine modify_map s id fun f => ?_
  split
  · exact hp f _
  · rfl

theorem modifyScript_map {α : Type} {p : Frame τ → α} (hp : ∀ f w, p { f with work := w } = p f)
    (s : Session σ τ) (id : Nat) (g : ScriptWork τ → ScriptWork τ) :
    (s.modifyScript id g).stack.map p = s.stack.map p := by
  refine modify_map s id fun f => ?_
  split
  · rfl
  · exact hp f _

theorem owns_of_ids {s s' : Session σ τ} (h : s'.stack.map (·.id) = s.stack.map (·.id))
    (id : Nat) : s'.owns id = s.owns id := by
  have hm : ∀ t : Session σ τ, t.owns id = (t.stack.map (·.id)).any (· = id) := fun t => by
    rw [owns, List.any_map]
    rfl
  rw [hm, hm, h]

theorem record_if (p : Prop) [Decidable p] (s : Session σ τ) (e : Event) :
    (if p then s.record e else s) = { s with journal := (if p then [e] else []) ++ s.journal } := by
  split <;> rfl

/-- What is reported when the run state is set. -/
def stateNews (s : Session σ τ) (x : RunState) : List Event :=
  if x = s.state then [] else [.state x]

theorem stateNews_cases {s : Session σ τ} {x : RunState} {e : Event} (h : e ∈ s.stateNews x) :
    e = .state x := by
  unfold stateNews at h
  split at h
  · simp at h
  · exact List.mem_singleton.1 h

theorem setState_eq (s : Session σ τ) (x : RunState) :
    s.setState x = { s with state := x, journal := s.stateNews x ++ s.journal } := by
  unfold setState stateNews
  split
  · next h => subst h; rfl
  · rfl

theorem setState_if (p : Prop) [Decidable p] (s : Session σ τ) (x : RunState) :
    (if p then s.setState x else s) =
      { s with
        state := if p then x else s.state
        journal := (if p ∧ x ≠ s.state then [.state x] else []) ++ s.journal } := by
  rw [setState_eq, stateNews]
  by_cases hp : p <;> by_cases hx : x = s.state <;> simp [hp, hx]

/-- What is reported when a frame is taken off, the latest first. -/
def popNews (s : Session σ τ) (f : Frame τ) (r : FrameResult) : List Event :=
  [.status ((s.without f.id).map fun g => (s.nameOf g, g.position))]
    ++ (if (s.without f.id).isEmpty ∧ RunState.idle ≠ s.state then [.state .idle] else [])
    ++ [.finished (s.nameOf f) r,
      .log r.level (.text ("Macro " ++ (s.nameOf f).quoted ++ " " ++ r.label))]
    ++ (if f.isScript then [.closed f.id] else [])
    ++ [.popped f.id r]

theorem popNews_cases {s : Session σ τ} {f : Frame τ} {r : FrameResult} {e : Event}
    (h : e ∈ s.popNews f r) :
    (∃ rows, e = .status rows) ∨ e = .state .idle ∨ e = .finished (s.nameOf f) r ∨
      (∃ level text, e = .log level text) ∨ e = .closed f.id ∨ e = .popped f.id r := by
  simp only [popNews, List.mem_append, List.mem_cons, List.not_mem_nil, or_false] at h
  rcases h with (((rfl | h) | rfl | rfl) | h) | rfl
  · simp
  · split at h <;> simp_all
  · simp
  · simp
  · split at h <;> simp_all
  · simp

theorem pop_eq (s : Session σ τ) (f : Frame τ) (r : FrameResult) :
    s.pop f r =
      { s with
        stack := s.without f.id
        state := if (s.without f.id).isEmpty then .idle else s.state
        journal := s.popNews f r ++ s.journal } := by
  unfold pop
  simp only [record_if, setState_if]
  simp [popNews, record, log, say, emitStatus, status, nameOf, without, List.append_assoc]

/-- What holds of every pop holds of taking all frames off. -/
theorem clear_of_pop {R : Session σ τ → Session σ τ → Prop} {r : FrameResult} (refl : ∀ s, R s s)
    (trans : ∀ s s' s'', R s s' → R s' s'' → R s s'') (pop : ∀ s f, R s (s.pop f r))
    (s : Session σ τ) : R s (s.clear r) := by
  unfold clear
  generalize s.stack.reverse = fs
  induction fs generalizing s with
  | nil => exact refl s
  | cons f fs ih => exact trans _ _ _ (pop s f) (ih (s.pop f r))

/-- The frame that a push puts on the stack. -/
def newFrame (s : Session σ τ) (node : NodeId) (text : String) (work : Work τ) : Frame τ :=
  ⟨s.nextId, node, text, false, false, work⟩

/-- What is reported when a frame is put on, the latest first. -/
def pushNews (s : Session σ τ) (f : Frame τ) : List Event :=
  [.status ((s.stack ++ [f]).map fun g => (s.nameOf g, g.position)),
    .log .info (.text ("Running macro " ++ (s.nameOf f).quoted))]
    ++ (if s.state = .notReady || s.state = .running then [] else [.state .running])
    ++ [.pushed f.id]

theorem pushNews_cases {s : Session σ τ} {f : Frame τ} {e : Event} (h : e ∈ s.pushNews f) :
    (∃ rows, e = .status rows) ∨ (∃ level text, e = .log level text) ∨ e = .state .running ∨
      e = .pushed f.id := by
  simp only [pushNews, List.mem_append, List.mem_cons, List.not_mem_nil, or_false] at h
  rcases h with ((rfl | rfl) | h) | rfl
  · simp
  · simp
  · split at h <;> simp_all
  · simp

theorem push_eq (s : Session σ τ) (node : NodeId) (text : String) (work : Work τ) :
    s.push node text work =
      { s with
        stack := s.stack ++ [s.newFrame node text work]
        state := if s.state = .notReady then .notReady else .running
        prior := if s.state = .notReady then .running else s.prior
        freshRun := s.stack.isEmpty || s.freshRun
        nextId := s.nextId + 1
        journal := s.pushNews (s.newFrame node text work) ++ s.journal } := by
  cases he : s.stack.isEmpty <;> cases hs : s.state <;>
    simp_all [push, pushNews, newFrame, setState, emitStatus, status, record, log, say, nameOf]

end Session

end Macros
