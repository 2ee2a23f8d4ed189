import Macros.Proofs.Scheduler.Fields

/-!
Reading a journal, which has its latest event first. From it one can tell which frames were on the
stack at every moment, what the run state was, and whether the user's last word was a stop.
-/

namespace Macros

/-- Events that only tell observers something. -/
def Event.isRemark : Event → Bool
  | log _ _ | status _ | loop _ _ _ | loaded _ | settled _ _ _ => true
  | _ => false

/-- Events by which a line or the result of one changes hands. -/
def Event.isExchange : Event → Bool
  | handed _ _ | sent _ _ => true
  | _ => false

/-- Control calls, as they come in and as they return. -/
def Event.isControl : Event → Bool
  | calling _ | called _ _ => true
  | _ => false

/-- A stop of everything has returned. -/
def Event.stops : Event → Bool
  | called (.stop false) _ => true
  | _ => false

/-- The user starts a macro. -/
def Event.starts : Event → Bool
  | calling (.run _ _) | calling (.runByName _ _) => true
  | _ => false

theorem Event.quiet_of_isRemark {e : Event} (h : e.isRemark) : ¬e.isControl ∧ ¬e.isExchange := by
  cases e <;> first | exact ⟨Bool.false_ne_true, Bool.false_ne_true⟩ | cases h

theorem Event.eq_called_of_stops {e : Event} (h : e.stops) : ∃ p, e = called (.stop false) p := by
  unfold Event.stops at h
  split at h
  · exact ⟨_, rfl⟩
  · exact absurd h Bool.false_ne_true

namespace Journal

/-- The frames on the stack, the outermost first. -/
def frames : List Event → List Nat
  | [] => []
  | .pushed id :: es => frames es ++ [id]
  | .popped id _ :: es => (frames es).filter (· != id)
  | _ :: es => frames es

/-- The run state that observers were told last. -/
def state : List Event → RunState
  | [] => .idle
  | .state x :: _ => x
  | _ :: es => state es

/-- Has a stop returned, and has the user started nothing since? -/
def stopped : List Event → Bool
  | [] => false
  | e :: es => e.stops || (!e.starts && stopped es)

/-- A stop has come in since the script of a frame was last resumed. -/
def StopSinceResume (id : Nat) (es : List Event) : Prop :=
  ∃ q v p b, es = q ++ .sent id v :: p ∧ (∀ w, .sent id w ∉ q) ∧ .called (.stop false) b ∈ q

/-- A stop has come in since a line was last handed over, and the user has started nothing
since. -/
def StopSinceHanded (es : List Event) : Prop :=
  ∃ q id i p, es = q ++ .handed id i :: p ∧ (∀ j l, .handed j l ∉ q) ∧ stopped q = true

theorem stopped_append_of_quiet {es : List Event} (h : ∀ e ∈ es, ¬e.isControl) (p : List Event) :
    stopped (es ++ p) = stopped p := by
  induction es with
  | nil => rfl
  | cons e es ih =>
    have he := h e (by simp)
    rw [List.cons_append, stopped, ih fun e' h' => h e' (by simp [h'])]
    cases e <;> simp [Event.isControl] at he <;> rfl

theorem stopped_append {q : List Event} (h : stopped q) (p : List Event) : stopped (q ++ p) := by
  induction q with
  | nil => simp [stopped] at h
  | cons e q ih =>
    simp only [List.cons_append, stopped, Bool.or_eq_true, Bool.and_eq_true] at h ⊢
    exact h.imp_right fun h => ⟨h.1, ih h.2⟩

theorem stopped_of_append {q p : List Event} (h : stopped (q ++ p)) : stopped q ∨ stopped p := by
  induction q with
  | nil => exact .inr h
  | cons e q ih =>
    simp only [List.cons_append, stopped, Bool.or_eq_true, Bool.and_eq_true] at h ⊢
    rcases h with h | ⟨h, h'⟩
    · exact .inl (.inl h)
    · exact (ih h').imp_left fun h' => .inr ⟨h, h'⟩

end Journal

namespace Session

variable {σ τ : Type}

/-- What has been reported from the first session to the second. -/
def news (s s' : Session σ τ) : List Event := s'.journal.take (s'.journal.length - s.journal.length)

theorem news_eq {s s' : Session σ τ} {es : List Event} (h : s'.journal = es ++ s.journal) : s.news s' = es := by
  rw [news, h, List.length_append, Nat.add_sub_cancel]
  exact List.take_left

/-! What is reported when a frame comes or goes is neither a control call nor a line. -/

theorem stateNews_quiet (s : Session σ τ) (x : RunState) :
    ∀ e ∈ s.stateNews x, ¬e.isControl ∧ ¬e.isExchange := by
  intro e he
  rw [stateNews_cases he]
  simp [Event.isControl, Event.isExchange]

theorem pushNews_quiet (s : Session σ τ) (f : Frame τ) :
    ∀ e ∈ s.pushNews f, ¬e.isControl ∧ ¬e.isExchange := by
  intro e he
  obtain ⟨_, rfl⟩ | ⟨_, _, rfl⟩ | rfl | rfl := pushNews_cases he <;>
    simp [Event.isControl, Event.isExchange]

theorem popNews_quiet (s : Session σ τ) (f : Frame τ) (r : FrameResult) :
    ∀ e ∈ s.popNews f r, ¬e.isControl ∧ ¬e.isExchange := by
  intro e he
  obtain ⟨_, rfl⟩ | rfl | rfl | ⟨_, _, rfl⟩ | rfl | rfl := popNews_cases he <;>
    simp [Event.isControl, Event.isExchange]

end Session

end Macros
