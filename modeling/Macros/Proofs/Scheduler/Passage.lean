import Macros.Proofs.Scheduler.Driver
import Macros.Proofs.Scheduler.Steady

/-!
What a part of a run reports: which lines it hands over, and that the macros that end in it are
completed.
-/

namespace Macros

variable {σ τ : Type}

namespace Journal

/-- The instructions handed over, in this order. -/
def handed : List Event → List Instruction
  | [] => []
  | .handed _ i :: es => handed es ++ [i]
  | _ :: es => handed es

theorem handed_append (p q : List Event) : handed (p ++ q) = handed q ++ handed p := by
  induction p with
  | nil => simp [handed]
  | cons e p ih => cases e <;> simp [handed, ih]

end Journal

/-- Neither hands a line over nor tells how a macro ended. -/
def Event.isPlain : Event → Bool
  | handed _ _ | sent _ _ | finished _ _ => false
  | _ => true

theorem Event.isPlain_of_isRemark {e : Event} (h : e.isRemark) : e.isPlain := by
  cases e <;> first | rfl | cases h

theorem Event.not_isExchange_of_isPlain {e : Event} (h : e.isPlain) : ¬e.isExchange := by
  cases e <;> first | exact Bool.false_ne_true | cases h

theorem Journal.handed_of_quiet {es : List Event} (h : ∀ e ∈ es, ¬e.isExchange) :
    handed es = [] := by
  induction es with
  | nil => rfl
  | cons e es ih =>
    have he := h e (by simp)
    have ih' := ih fun e' h' => h e' (by simp [h'])
    cases e with
    | handed => exact absurd rfl he
    | _ => exact ih'

namespace Session

variable {s t u : Session σ τ} {is js : List Instruction} {es es' : List Event}

/-- The frames, each with the name that it is shown by. -/
def labels (s : Session σ τ) : List (Nat × Value) := s.stack.map fun f => (f.id, s.nameOf f)

/-- From `s` to `t` the instructions were handed over, and the macros that ended were completed,
among them those that are gone. -/
structure Passage (s t : Session σ τ) (is : List Instruction) (es : List Event) : Prop where
  journal : t.journal = es ++ s.journal
  handed : Journal.handed es = is
  completed : ∀ name r, .finished name r ∈ es → r = .completed
  gone : ∀ l ∈ s.labels, l ∈ t.labels ∨ .finished l.2 .completed ∈ es

theorem Passage.refl (s : Session σ τ) : Passage s s [] [] :=
  ⟨rfl, rfl, by simp, fun _ h => .inl h⟩

theorem Passage.trans (h : Passage s t is es) (h' : Passage t u js es') :
    Passage s u (is ++ js) (es' ++ es) where
  journal := by rw [h'.journal, h.journal, List.append_assoc]
  handed := by rw [Journal.handed_append, h.handed, h'.handed]
  completed := by
    intro name r hm
    rcases List.mem_append.1 hm with hm | hm
    · exact h'.completed name r hm
    · exact h.completed name r hm
  gone := by
    intro l hl
    rcases h.gone l hl with hl | hl
    · exact (h'.gone l hl).imp_right fun hm => List.mem_append_left _ hm
    · exact .inr (List.mem_append_right _ hl)

theorem passage_of_plain (hj : t.journal = es ++ s.journal) (he : ∀ e ∈ es, e.isPlain)
    (hl : ∀ l ∈ s.labels, l ∈ t.labels) : Passage s t [] es where
  journal := hj
  handed := Journal.handed_of_quiet fun e hm => Event.not_isExchange_of_isPlain (he e hm)
  completed name r hm := by simpa [Event.isPlain] using he _ hm
  gone l h := .inl (hl l h)

theorem Aside.passage (h : Aside s t) : ∃ es, Passage s t [] es := by
  obtain ⟨es, _, _, _, he, rfl⟩ := h
  exact ⟨es, passage_of_plain rfl (fun e hm => Event.isPlain_of_isRemark (he e hm)) fun _ h => h⟩

theorem passage_handed (s : Session σ τ) (id : Nat) (i : Instruction) :
    Passage s (s.record (.handed id i)) [i] [.handed id i] :=
  ⟨rfl, rfl, by simp, fun _ h => .inl h⟩

theorem passage_settled (s : Session σ τ) (id : Nat) (i : Instruction) (x : Outcome) :
    Passage s (s.record (.settled id i x)) [] [.settled id i x] :=
  passage_of_plain rfl (by simp [Event.isPlain]) fun _ h => h

theorem modifyNative_labels (s : Session σ τ) (id : Nat) (g : NativeWork → NativeWork) :
    (s.modifyNative id g).labels = s.labels :=
  modifyNative_map (fun _ _ => rfl) s id g

theorem modifyNative_passage (s : Session σ τ) (id : Nat) (g : NativeWork → NativeWork) :
    Passage s (s.modifyNative id g) [] [] :=
  passage_of_plain rfl (by simp) fun _ h => by rwa [modifyNative_labels]

theorem push_passage (s : Session σ τ) (n : NodeId) (text : String) (work : Work τ) :
    ∃ es, Passage s (s.push n text work) [] es := by
  rw [push_eq]
  refine ⟨_, passage_of_plain rfl (fun e he => ?_) fun l hl => ?_⟩
  · obtain ⟨_, rfl⟩ | ⟨_, _, rfl⟩ | rfl | rfl := pushNews_cases he <;> rfl
  · obtain ⟨f, hf, rfl⟩ := List.mem_map.1 hl
    exact List.mem_map.2 ⟨f, List.mem_append_left _ hf, rfl⟩

end Session

end Macros
