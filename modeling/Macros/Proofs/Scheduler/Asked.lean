import Macros.Proofs.Scheduler.Journal

/-!
What has been asked for. A pause, a resume and a start each ask for a run state, and so does a line
that starts a macro; the last of them holds.
-/

namespace Macros

/-- Calls that ask for a run state at once. -/
def Control.isRequest : Control → Bool
  | .pause true | .stop _ => false
  | _ => true

/-- The run state that a call has asked for by the time it returns. -/
def Event.asks : Event → Option RunState
  | called (.pause false) _ => some .paused
  | called .resume _ => some .running
  | called (.run _ _) true => some .running
  | called (.runByName _ _) true => some .running
  | _ => none

/-- Is this no call, or a call that asks for a run state? -/
def Event.isOrderly : Event → Bool
  | calling c => c.isRequest
  | _ => true

/-- Neither asks for a run state nor starts a macro. -/
def Event.isNeutral : Event → Bool
  | pushed _ => false
  | e => e.asks.isNone

theorem Event.isNeutral_of_isRemark {e : Event} (h : e.isRemark) : e.isNeutral := by
  cases e <;> first | rfl | cases h

theorem Event.of_isNeutral {e : Event} (h : e.isNeutral) :
    (¬∃ id, e = .pushed id) ∧ e.asks = none := by
  have hp : ¬∃ id, e = .pushed id := by
    rintro ⟨id, rfl⟩
    cases h
  refine ⟨hp, ?_⟩
  cases e with
  | called c p => exact Option.isNone_iff_eq_none.1 h
  | pushed id => exact absurd ⟨id, rfl⟩ hp
  | _ => rfl

theorem Event.asks_cases {e : Event} {x : RunState} (h : e.asks = some x) :
    x = .running ∨ x = .paused := by
  unfold Event.asks at h
  split at h
  · exact .inr (Option.some.inj h).symm
  · exact .inl (Option.some.inj h).symm
  · exact .inl (Option.some.inj h).symm
  · exact .inl (Option.some.inj h).symm
  · cases h

namespace Journal

/-- No control calls but requests have come in. -/
def OnlyRequests (es : List Event) : Prop := ∀ e ∈ es, e.isOrderly

instance (es : List Event) : Decidable (OnlyRequests es) :=
  inferInstanceAs (Decidable (∀ e ∈ es, e.isOrderly))

/-- What was asked for last. -/
def lastAsked (es : List Event) : Option RunState := es.findSome? Event.asks

/-- What was asked for last, unless the line itself has started a macro since. -/
def request : List Event → Option RunState
  | [] => none
  | .pushed _ :: _ => none
  | e :: es => e.asks.or (request es)

/-- The run state that was `x` to begin with. -/
def held (x : RunState) : List Event → RunState
  | [] => x
  | .pushed _ :: _ => .running
  | e :: es => e.asks.getD (held x es)

/-! What is read off an event that starts no macro. -/

theorem request_cons {e : Event} (he : ¬∃ id, e = .pushed id) (es : List Event) :
    request (e :: es) = e.asks.or (request es) := by
  cases e with
  | pushed id => exact absurd ⟨id, rfl⟩ he
  | _ => rfl

theorem held_cons {e : Event} (he : ¬∃ id, e = .pushed id) (x : RunState) (es : List Event) :
    held x (e :: es) = e.asks.getD (held x es) := by
  cases e with
  | pushed id => exact absurd ⟨id, rfl⟩ he
  | _ => rfl

theorem held_of_request {es : List Event} {q : RunState} (h : request es = some q)
    (x : RunState) : held x es = q := by
  induction es with
  | nil => cases h
  | cons e es ih =>
    by_cases he : ∃ id, e = .pushed id
    · obtain ⟨id, rfl⟩ := he
      cases h
    · rw [request_cons he] at h
      rw [held_cons he]
      cases ha : e.asks with
      | none =>
        rw [ha] at h
        exact ih h
      | some y =>
        rw [ha] at h
        exact Option.some.inj h

theorem request_cases {es : List Event} {q : RunState} (h : request es = some q) :
    q = .running ∨ q = .paused := by
  induction es with
  | nil => cases h
  | cons e es ih =>
    by_cases he : ∃ id, e = .pushed id
    · obtain ⟨id, rfl⟩ := he
      cases h
    · rw [request_cons he] at h
      cases ha : e.asks with
      | none =>
        rw [ha] at h
        exact ih h
      | some y =>
        rw [ha] at h
        exact Option.some.inj h ▸ Event.asks_cases ha

theorem request_append {es : List Event} (h : ∀ e ∈ es, e.isNeutral) (p : List Event) :
    request (es ++ p) = request p := by
  induction es with
  | nil => rfl
  | cons e es ih =>
    obtain ⟨he, hes⟩ := List.forall_mem_cons.1 h
    obtain ⟨hp, ha⟩ := Event.of_isNeutral he
    rw [List.cons_append, request_cons hp, ha, Option.none_or, ih hes]

theorem held_append (x : RunState) (p q : List Event) : held x (p ++ q) = held (held x q) p := by
  induction p with
  | nil => rfl
  | cons e p ih =>
    rw [List.cons_append]
    by_cases he : ∃ id, e = .pushed id
    · obtain ⟨id, rfl⟩ := he
      rfl
    · rw [held_cons he, held_cons he, ih]

theorem held_of_neutral {es : List Event} (h : ∀ e ∈ es, e.isNeutral) (x : RunState) :
    held x es = x := by
  induction es with
  | nil => rfl
  | cons e es ih =>
    obtain ⟨he, hes⟩ := List.forall_mem_cons.1 h
    obtain ⟨hp, ha⟩ := Event.of_isNeutral he
    rw [held_cons hp, ha, Option.getD_none, ih hes]

theorem OnlyRequests.of_append {p q : List Event} (h : OnlyRequests (p ++ q)) :
    OnlyRequests p ∧ OnlyRequests q :=
  ⟨fun c hc => h c (List.mem_append_left _ hc), fun c hc => h c (List.mem_append_right _ hc)⟩

end Journal

end Macros
