import Macros.Proofs.Scheduler.Driver

/-!
What the journal says is so: the frames and the run state that can be read off it are those of the
session. With that, what held at an earlier moment can be looked up in the journal.
-/

namespace Macros

open Session

variable {σ τ : Type}

namespace Journal

theorem suffix_of_append {e : Event} {es news p : List Event} (h : e :: es <:+ news ++ p)
    (hn : e ∉ news) : e :: es <:+ p := by
  induction news with
  | nil => exact h
  | cons a news ih =>
    rw [List.cons_append, List.suffix_cons_iff] at h
    rcases h with h | h
    · exact absurd (List.cons.inj h).1 (by rintro rfl; simp at hn)
    · exact ih h fun hm => hn (List.mem_cons_of_mem _ hm)

theorem read_remark {e : Event} (he : e.isRemark) (es : List Event) :
    frames (e :: es) = frames es ∧ state (e :: es) = state es := by
  cases e <;> first | exact ⟨rfl, rfl⟩ | cases he

/-- A frame that is on the stack and was not there earlier has been put on since. -/
theorem pushed_since {id : Nat} {q p : List Event} (h : id ∈ frames (q ++ p))
    (hp : id ∉ frames p) : ∃ q' p', q = q' ++ .pushed id :: p' := by
  induction q with
  | nil => exact absurd h hp
  | cons e q ih =>
    by_cases hq : id ∈ frames (q ++ p)
    · obtain ⟨q', p', rfl⟩ := ih hq
      exact ⟨e :: q', p', rfl⟩
    · cases e with
      | pushed j =>
        rcases List.mem_append.1 h with h | h
        · exact absurd h hq
        · rw [List.mem_singleton.1 h]
          exact ⟨[], q, rfl⟩
      | popped j r => exact absurd (List.mem_filter.1 h).1 hq
      | _ => exact absurd h hq

end Journal

namespace Session

variable {o : Oracle σ τ} {s s' : Session σ τ}

/-- The journal knows the frames and the run state. -/
structure Traced (s : Session σ τ) : Prop where
  frames : Journal.frames s.journal = s.stack.map (·.id)
  state : Journal.state s.journal = s.state

theorem Traced.of_ids (h : s.Traced) (hj : s'.journal = s.journal)
    (hs : s'.stack.map (·.id) = s.stack.map (·.id)) (ht : s'.state = s.state) : s'.Traced :=
  ⟨by rw [hj, hs]; exact h.frames, by rw [hj, ht]; exact h.state⟩

theorem Traced.setState (h : s.Traced) (x : RunState) : (s.setState x).Traced := by
  rw [setState_eq, stateNews]
  by_cases hx : x = s.state
  · subst hx
    exact ⟨by simpa using h.frames, by simpa using h.state⟩
  · exact ⟨by simpa [hx, Journal.frames] using h.frames, by simp [hx, Journal.state]⟩

theorem Traced.push (h : s.Traced) (node : NodeId) (text : String) (work : Work τ) :
    (s.push node text work).Traced := by
  rw [push_eq]
  constructor
  · dsimp only
    rw [List.map_append, ← h.frames, pushNews]
    split <;> rfl
  · dsimp only
    rw [pushNews]
    split
    · next hx =>
      show Journal.state s.journal = _
      rw [h.state]
      rcases (Bool.or_eq_true _ _).mp hx with hx | hx <;> rw [of_decide_eq_true hx] <;> rfl
    · next hx =>
      rw [if_neg fun hn => hx (by simp [hn])]
      rfl

theorem Traced.pop (h : s.Traced) (f : Frame τ) (r : FrameResult) : (s.pop f r).Traced := by
  rw [pop_eq]
  have hf : (Journal.frames s.journal).filter (· != f.id) = (s.without f.id).map (·.id) := by
    rw [h.frames, List.filter_map]
    rfl
  constructor
  · dsimp only
    rw [popNews]
    split <;> split <;> exact hf
  · dsimp only
    rw [popNews]
    split
    · next hx =>
      rw [if_pos hx.1]
      rfl
    · next hx =>
      have hj : Journal.state s.journal = if (s.without f.id).isEmpty then .idle else s.state := by
        split
        · next he => exact h.state.trans (not_not.1 fun hi => hx ⟨he, Ne.symm hi⟩)
        · exact h.state
      split <;> exact hj

theorem Change.traced (hc : Change o s s') (h : s.Traced) : s'.Traced := by
  cases hc with
  | client | foresee | halt | clear | close | edit => exact h.of_ids rfl rfl rfl
  | remark e he =>
    obtain ⟨hf, hs⟩ := Journal.read_remark he s.journal
    exact ⟨hf.trans h.frames, hs.trans h.state⟩
  | calling | called | hand | send => exact ⟨h.frames, h.state⟩
  | push node text work => exact h.push node text work
  | pop f r => exact h.pop f r
  | mark id pauses stops => exact h.of_ids rfl (modify_map s id fun _ => rfl) rfl
  | goTo id | passLoop id | script id =>
    exact h.of_ids rfl (modify_map s id fun f => by split <;> rfl) rfl
  | pause | resume | leave | rest => exact h.setState _
  | await =>
    have h1 : Traced { s with prior := s.state } := h.of_ids rfl rfl rfl
    exact h1.setState _

theorem Changes.traced (hc : Changes o s s') (h : s.Traced) : s'.Traced := by
  induction hc with
  | refl => exact h
  | tail _ hc ih => exact hc.traced ih

theorem Traced.idle (tree : Tree) (settings : Settings) (registry : Registry) (x : σ) :
    (Session.idle tree settings registry x : Session σ τ).Traced := ⟨rfl, rfl⟩

end Session

end Macros
