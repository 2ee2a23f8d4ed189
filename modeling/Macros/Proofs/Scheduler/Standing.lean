import Macros.Proofs.Scheduler.Passage

/-!
The frames of a run that nothing disturbs: which ones there are, and where each of them stands. Only
the innermost moves; others are put on above it, or it is taken off.
-/

namespace Macros

variable {σ τ : Type}

/-- The frame with its macro at another place. -/
def Frame.doing (f : Frame τ) (w : NativeWork) : Frame τ := { f with work := .native w }

/-- The macro moved past its next line. -/
def NativeWork.next (w : NativeWork) : NativeWork := { w with cursor := w.cursor + 1 }

namespace Session

variable {s t u : Session σ τ} {base fs : List (Frame τ)} {f : Frame τ} {w : NativeWork}
  {i : Instruction}

/-- In a run that began with `s` these are the frames now. No loop is marked, and nothing else that
the run depends on has changed. -/
structure Standing (s : Session σ τ) (fs : List (Frame τ)) (t : Session σ τ) : Prop where
  stack : t.stack = fs
  state : t.state = if fs.isEmpty then .idle else .running
  tree : t.tree = s.tree
  settings : t.settings = s.settings
  registry : t.registry = s.registry
  opened : t.closed = false
  hasRunner : t.hasRunner
  numbered : fs.Pairwise (·.id < ·.id)
  fresh : ∀ f ∈ fs, f.id < t.nextId
  unmarked : ∀ f ∈ fs, f.stopAtLoop = false ∧ f.pauseAtLoop = false

theorem Standing.aside (h : Standing s fs t) (ha : Aside t u) : Standing s fs u := by
  obtain ⟨es, _, _, _, -, rfl⟩ := ha
  exact ⟨h.stack, h.state, h.tree, h.settings, h.registry, h.opened, h.hasRunner, h.numbered,
    h.fresh, h.unmarked⟩

theorem Standing.handed (h : Standing s fs t) (id : Nat) (i : Instruction) :
    Standing s fs (t.record (.handed id i)) :=
  ⟨h.stack, h.state, h.tree, h.settings, h.registry, h.opened, h.hasRunner, h.numbered, h.fresh,
    h.unmarked⟩

theorem Standing.frame? (h : Standing s fs t) (hf : f ∈ fs) : t.frame? f.id = some f := by
  cases hx : t.frame? f.id with
  | none =>
    have hn := List.find?_eq_none.1 hx f (h.stack ▸ hf)
    simp at hn
  | some g =>
    obtain ⟨hg, hi⟩ := frame?_some hx
    rw [h.stack] at hg
    rw [eq_of_id h.numbered hg hf hi]

theorem Standing.below (h : Standing s (base ++ [f]) t) : ∀ g ∈ base, g.id < f.id :=
  fun g hg => (List.pairwise_append.1 h.numbered).2.2 g hg f (by simp)

/-- The innermost macro moves to another place. -/
theorem Standing.modifyNative (h : Standing s (base ++ [f.doing w]) t)
    (g : NativeWork → NativeWork) :
    Standing s (base ++ [f.doing (g w)]) (t.modifyNative f.id g) where
  stack := by
    show t.stack.map _ = _
    rw [h.stack, List.map_append]
    congr 1
    · refine (List.map_congr_left fun e he => ?_).trans (List.map_id _)
      exact if_neg (Nat.ne_of_lt (h.below e he))
    · simp [Frame.doing]
  state := by rw [show (t.modifyNative f.id g).state = t.state from rfl, h.state]; simp
  tree := h.tree
  settings := h.settings
  registry := h.registry
  opened := h.opened
  hasRunner := h.hasRunner
  numbered := by
    have hn := h.numbered
    simp only [List.pairwise_append, List.pairwise_cons, List.mem_singleton] at hn ⊢
    refine ⟨hn.1, hn.2.1, ?_⟩
    rintro a ha e rfl
    exact hn.2.2 a ha (f.doing w) rfl
  fresh := by
    obtain ⟨hb, hf⟩ := List.forall_mem_append.1 h.fresh
    exact List.forall_mem_append.2 ⟨hb, List.forall_mem_singleton.2 (hf (f.doing w) (by simp))⟩
  unmarked := by
    obtain ⟨hb, hf⟩ := List.forall_mem_append.1 h.unmarked
    exact List.forall_mem_append.2 ⟨hb, List.forall_mem_singleton.2 (hf (f.doing w) (by simp))⟩

theorem Standing.push (h : Standing s fs t) (hf : fs ≠ []) (n : NodeId) (text : String)
    (js : List Instruction) :
    Standing s (fs ++ [(t.newFrame n text (.native (.start js))).doing (.start js)])
      (t.push n text (.native (.start js))) := by
  have hr : t.state = .running := by rw [h.state]; simp [hf]
  rw [push_eq]
  constructor
  · dsimp only
    rw [h.stack]
    rfl
  · simp [hr]
  · exact h.tree
  · exact h.settings
  · exact h.registry
  · exact h.opened
  · exact h.hasRunner
  · simp only [List.pairwise_append, h.numbered, List.pairwise_cons, List.mem_singleton]
    refine ⟨trivial, by simp, ?_⟩
    rintro e he g rfl
    exact h.fresh e he
  · exact List.forall_mem_append.2
      ⟨fun e he => Nat.lt_succ_of_lt (h.fresh e he), List.forall_mem_singleton.2 (Nat.lt_succ_self _)⟩
  · exact List.forall_mem_append.2 ⟨h.unmarked, List.forall_mem_singleton.2 ⟨rfl, rfl⟩⟩

theorem Standing.pop (h : Standing s (base ++ [f]) t) :
    Standing s base (t.pop f .completed) ∧ ∃ es, Passage t (t.pop f .completed) [] es := by
  have hw : t.without f.id = base := without_last h.stack h.below
  rw [pop_eq, hw]
  refine ⟨?_, _, rfl, ?_, ?_, ?_⟩
  · have hr : t.state = .running := by rw [h.state]; simp
    exact ⟨rfl, by rw [hr], h.tree, h.settings, h.registry, h.opened, h.hasRunner,
      (List.pairwise_append.1 h.numbered).1, (List.forall_mem_append.1 h.fresh).1,
      (List.forall_mem_append.1 h.unmarked).1⟩
  · exact Journal.handed_of_quiet fun e he => (popNews_quiet t f .completed e he).2
  · intro name r hm
    obtain ⟨_, he⟩ | he | he | ⟨_, _, he⟩ | he | he := popNews_cases hm
    · simp at he
    · simp at he
    · exact (Event.finished.inj he).2
    · simp at he
    · simp at he
    · simp at he
  · intro l hl
    obtain ⟨e, he, rfl⟩ := List.mem_map.1 hl
    rw [h.stack] at he
    rcases List.mem_append.1 he with he | he
    · exact .inl (List.mem_map.2 ⟨e, he, rfl⟩)
    · rw [List.mem_singleton.1 he]
      exact .inr (by simp [popNews])

theorem Standing.top (h : Standing s (base ++ [f]) t) : t.top? = some f := by
  unfold top?
  rw [h.stack, List.getLast?_concat]

theorem Standing.running (h : Standing s (base ++ [f]) t) : t.state = .running := by
  rw [h.state]
  simp

end Session

end Macros
