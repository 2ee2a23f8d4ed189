import Macros.Execution.Line

/-!
What a routine does with a client that is there. It is followed along the answers that such a client
may give: it starts no macro, and it ends in a given way.
-/

namespace Macros

variable {α β : Type}

/-- A result that does not say that the client is away. -/
def Answered (x : Except Fault α) : Prop := ∀ m, x ≠ .error (.unavailable m)

theorem answered_ok (a : α) : Answered (.ok a : Except Fault α) := fun m h => by simp at h

theorem answered_error {e : Fault} : Answered (.error e : Except Fault α) ↔ ∀ m, e ≠ .unavailable m := by
  simp [Answered]

def Effect.startsMacro : Effect → Bool
  | start _ => true
  | _ => false

/-- The answers of a client that is there. -/
def Effect.Fits : (e : Effect) → e.Answer → Prop
  | .ask _, x => Answered x
  | .condition, x => Answered x
  | _, _ => True

/-- No macro is started, and what the routine ends in is as it should be. -/
def Routine.Quiet (Q : α → Prop) : Routine α → Prop
  | done a => Q a
  | perform e next => e.startsMacro = false ∧ ∀ x, e.Fits x → (next x).Quiet Q

theorem Routine.Quiet.bind {P : α → Prop} {Q : β → Prop} {r : Routine α} {f : α → Routine β}
    (h : r.Quiet P) (hf : ∀ a, P a → (f a).Quiet Q) : (r.bind f).Quiet Q := by
  induction r with
  | done a => exact hf a h
  | perform e next ih => exact ⟨h.1, fun x hx => ih x (h.2 x hx)⟩

theorem Routine.Quiet.mono {P Q : α → Prop} {r : Routine α} (h : r.Quiet P)
    (hq : ∀ a, P a → Q a) : r.Quiet Q := by
  induction r with
  | done a => exact hq a h
  | perform e next ih => exact ⟨h.1, fun x hx => ih x (h.2 x hx)⟩

namespace Act

/-- No macro is started, and the result or the fault is as it should be. -/
def Ends (Q : Except Fault α → Prop) (m : Act α) : Prop := m.run.Quiet Q

variable {P : Except Fault α → Prop} {Q : Except Fault β → Prop}

theorem Ends.done {x : Except Fault α} (h : P x) : (ofExcept x).Ends P := h

theorem Ends.bind {m : Act α} {f : α → Act β} (h : m.Ends P) (hf : ∀ a, P (.ok a) → (f a).Ends Q)
    (he : ∀ e, P (.error e) → Q (.error e)) : (m >>= f).Ends Q := by
  refine Routine.Quiet.bind (f := ExceptT.bindCont f) h fun x hx => ?_
  cases x with
  | ok a => exact hf a hx
  | error e => exact he e hx

/-- An effect that cannot fail. -/
theorem Ends.lift {e : Effect} {f : e.Answer → Act β} (he : e.startsMacro = false)
    (hf : ∀ x, (f x).Ends Q) : Act.Ends Q (ExceptT.lift (Routine.effect e) >>= f) :=
  ⟨he, fun x _ => hf x⟩

theorem Ends.tryCatch {m : Act α} {f : Fault → Act α} {R : Except Fault α → Prop} (h : m.Ends P)
    (hf : ∀ e, P (.error e) → (f e).Ends R) (hr : ∀ a, P (.ok a) → R (.ok a)) :
    (MonadExcept.tryCatch m f).Ends R := by
  refine Routine.Quiet.bind h fun x hx => ?_
  cases x with
  | ok a => exact hr a hx
  | error e => exact hf e hx

/-- The client is never found to be away. -/
def Tame (m : Act α) : Prop := m.Ends Answered

namespace Tame

theorem throw {e : Fault} (h : ∀ m, e ≠ .unavailable m) : Tame (MonadExcept.throw e : Act α) :=
  answered_error.2 h

theorem bind {m : Act α} {f : α → Act β} (h : Tame m) (hf : ∀ a, Tame (f a)) : Tame (m >>= f) :=
  Ends.bind h (fun a _ => hf a) fun _ he => answered_error.2 (answered_error.1 he)

theorem tryCatch {m : Act α} {f : Fault → Act α} (h : Tame m)
    (hf : ∀ e, (∀ m, e ≠ .unavailable m) → Tame (f e)) : Tame (MonadExcept.tryCatch m f) :=
  Ends.tryCatch h (fun e he => hf e (answered_error.1 he)) fun a _ => answered_ok a

theorem ask (r : Request) : Tame (Act.ask r) := ⟨rfl, fun _ hx => hx⟩

theorem condition : Tame Act.condition := ⟨rfl, fun _ hx => hx⟩

theorem stopped : Tame Act.stopped := ⟨rfl, fun _ _ => answered_ok _⟩

end Tame

/-- A macro is started first of all, and then the client is never found to be away. -/
def Opens (name : Value) (m : Act α) : Prop :=
  ∃ next, m.run = .perform (.start name) next ∧ ∀ x, Answered x → (next x).Quiet Answered

end Act

end Macros
