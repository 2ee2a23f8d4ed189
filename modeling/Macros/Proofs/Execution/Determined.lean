import Macros.Proofs.Execution.Quiet

/-!
What a routine comes to, whatever the random numbers are and however the time passes. Where nothing is
asked it comes to one result, or waits without an end; where the client is asked, the answers decide.
-/

namespace Macros

variable {α β : Type}

theorem Act.fit_ok (a : α) (f : α → Act β) : (Act.fit (.ok a) >>= f) = f a := rfl

/-- Neither a question to the client nor the start of a macro. -/
def Effect.isIdle : Effect → Bool
  | .sleep _ | .stopped | .draw | .log _ _ => true
  | .ask _ | .condition | .start _ => false

/-- Nothing is asked and no macro started, and what the routine ends in is as it should be. -/
def Routine.Lone (Q : α → Prop) : Routine α → Prop
  | done a => Q a
  | perform e next => e.isIdle ∧ ∀ x, (next x).Lone Q

theorem Routine.Lone.bind {P : α → Prop} {Q : β → Prop} {r : Routine α} {f : α → Routine β}
    (h : r.Lone P) (hf : ∀ a, P a → (f a).Lone Q) : (r.bind f).Lone Q := by
  induction r with
  | done a => exact hf a h
  | perform e next ih => exact ⟨h.1, fun x => ih x (h.2 x)⟩

theorem Routine.Lone.quiet {Q : α → Prop} {r : Routine α} (h : r.Lone Q) : r.Quiet Q := by
  induction r with
  | done a => exact h
  | perform e next ih =>
    refine ⟨?_, fun x _ => ih x (h.2 x)⟩
    have he := h.1
    cases e <;> first | rfl | simp [Effect.isIdle] at he

/-- What it ends in does not depend on who carries it out. -/
theorem Routine.Lone.result {W : Type} {Q : α → Prop} {r : Routine α} (h : r.Lone Q)
    (answer : (e : Effect) → W → e.Answer × W) (w : W) : Q (r.run answer w).1 := by
  induction r generalizing w with
  | done a => exact h
  | perform e next ih => exact ih _ (h.2 _) _

theorem Routine.Lone.mono {P Q : α → Prop} {r : Routine α} (h : r.Lone P) (hq : ∀ a, P a → Q a) :
    r.Lone Q := by
  induction r with
  | done a => exact hq a h
  | perform e next ih => exact ⟨h.1, fun x => ih x (h.2 x)⟩

/-- No macro is started, whatever the answers are. -/
def Routine.Startless : Routine α → Prop
  | done _ => True
  | perform e next => e.startsMacro = false ∧ ∀ x, (next x).Startless

theorem Routine.Startless.bind {r : Routine α} {f : α → Routine β} (h : r.Startless)
    (hf : ∀ a, (f a).Startless) : (r.bind f).Startless := by
  induction r with
  | done a => exact hf a
  | perform e next ih => exact ⟨h.1, fun x => ih x (h.2 x)⟩

theorem Routine.Lone.startless {Q : α → Prop} {r : Routine α} (h : r.Lone Q) : r.Startless := by
  induction r with
  | done a => trivial
  | perform e next ih =>
    refine ⟨?_, fun x => ih x (h.2 x)⟩
    have he := h.1
    cases e <;> first | rfl | simp [Effect.isIdle] at he

namespace Act

/-- The routine asks nothing and comes to `y`, unless it waits without an end. -/
def Fixed (y : Except Fault α) (m : Act α) : Prop :=
  m.run.Lone fun x => x = y ∨ x = .error .endless

namespace Fixed

theorem done (y : Except Fault α) : Fixed y (ofExcept y) := .inl rfl

theorem bind {m : Act α} {f : α → Act β} {a : α} {y : Except Fault β} (h : Fixed (.ok a) m)
    (hf : Fixed y (f a)) : Fixed y (m >>= f) := by
  refine Routine.Lone.bind (f := ExceptT.bindCont f) h fun x hx => ?_
  rcases hx with rfl | rfl
  · exact hf
  · exact .inr rfl

theorem lift {e : Effect} {f : e.Answer → Act β} {y : Except Fault β} (he : e.isIdle)
    (hf : ∀ x, Fixed y (f x)) : Fixed y (ExceptT.lift (Routine.effect e) >>= f) :=
  ⟨he, fun x => hf x⟩

theorem log (level : Level) (message : String) : Fixed (.ok ()) (Act.log level message) :=
  ⟨rfl, fun _ => .inl rfl⟩

end Fixed

end Act

/-- Faults that end a line at once: the client is away, or the line waits without an end. -/
def Fault.escapes : Fault → Bool
  | unavailable _ | endless => true
  | _ => false

namespace Act

/-- The answers to the questions decide what the routine comes to. It ends at once when the client is found
to be away; `asks` says whether it may ask at all. -/
inductive Determined (asks : Bool) : {α : Type} → Act α → Prop
  | fixed {α : Type} {y : Except Fault α} {m : Act α} (hy : Answered y) (h : Fixed y m) : Determined asks m
  | stopped : Determined asks Act.stopped
  | ask (r : Request) (h : asks) : Determined asks (Act.ask r)
  | condition (h : asks) : Determined asks Act.condition
  | bind {α β : Type} {m : Act α} {f : α → Act β} (h : Determined asks m)
    (hf : ∀ a, Determined asks (f a)) : Determined asks (m >>= f)
  | tryCatch {α : Type} {m : Act α} {f : Fault → Act α} (h : Determined asks m)
    (hf : ∀ e, e.escapes = false → Determined asks (f e))
    (he : ∀ e, e.escapes → f e = throw e) : Determined asks (MonadExcept.tryCatch m f)

namespace Determined

variable {asks : Bool}

theorem ofExcept {x : Except Fault α} (h : Answered x) : Determined asks (ofExcept x) := .fixed h (.done x)

theorem pure (a : α) : Determined asks (Pure.pure a : Act α) := ofExcept (answered_ok a)

theorem throw {e : Fault} (h : ∀ m, e ≠ .unavailable m) :
    Determined asks (MonadExcept.throw e : Act α) := ofExcept (answered_error.2 h)

theorem fit (x : Except Misfit α) : Determined asks (Act.fit x) := by
  refine ofExcept ?_
  cases x with
  | ok a => exact answered_ok a
  | error e => exact answered_error.2 fun m h => by simp at h

theorem say (level : Level) (message : Value) : Determined asks (Act.say level message) :=
  .fixed (answered_ok ()) ⟨rfl, fun _ => .inl rfl⟩

theorem log (level : Level) (message : String) : Determined asks (Act.log level message) := say _ _

/-- Such a routine starts no macro and does not find a client away that is there. -/
theorem tame {m : Act α} (h : Determined asks m) : Tame m := by
  induction h with
  | fixed hy h =>
    refine Routine.Quiet.mono h.quiet fun x hx => ?_
    rcases hx with rfl | rfl
    · exact hy
    · exact answered_error.2 fun m h => by simp at h
  | stopped => exact .stopped
  | ask r => exact .ask r
  | condition => exact .condition
  | bind _ _ ih ihf => exact .bind ih ihf
  | tryCatch _ _ he ih ihf =>
    refine .tryCatch ih fun e hn => ?_
    cases hx : e.escapes with
    | false => exact ihf e hx
    | true =>
      rw [he e hx]
      exact .throw hn

/-- It starts none either if the client is away. -/
theorem startless {m : Act α} (h : Determined asks m) : m.run.Startless := by
  induction h with
  | fixed _ h => exact h.startless
  | stopped => exact ⟨rfl, fun _ => trivial⟩
  | ask r => exact ⟨rfl, fun _ => trivial⟩
  | condition => exact ⟨rfl, fun _ => trivial⟩
  | bind _ _ ih ihf =>
    refine ih.bind fun x => ?_
    cases x with
    | ok a => exact ihf a
    | error e => trivial
  | tryCatch _ _ he ih ihf =>
    refine ih.bind fun x => ?_
    cases x with
    | ok a => trivial
    | error e =>
      cases hx : e.escapes with
      | false => exact ihf e hx
      | true =>
        dsimp only
        rw [he e hx]
        trivial

/-- If it asks nothing, it does not find the client away. -/
theorem lone {m : Act α} (h : Determined false m) : m.run.Lone Answered := by
  induction h with
  | fixed hy h =>
    refine h.mono fun x hx => ?_
    rcases hx with rfl | rfl
    · exact hy
    · exact answered_error.2 fun m h => by simp at h
  | stopped => exact ⟨rfl, fun _ => answered_ok _⟩
  | ask r h => simp at h
  | condition h => simp at h
  | bind _ _ ih ihf =>
    refine ih.bind fun x hx => ?_
    cases x with
    | ok a => exact ihf a
    | error e => exact answered_error.2 (answered_error.1 hx)
  | tryCatch _ _ he ih ihf =>
    refine ih.bind fun x hx => ?_
    cases x with
    | ok a => exact answered_ok a
    | error e =>
      cases hx' : e.escapes with
      | false => exact ihf e hx'
      | true =>
        dsimp only
        rw [he e hx']
        exact hx

end Determined

/-- A macro is started first of all, and then nothing is asked any more. -/
def Launches (name : Value) (m : Act α) : Prop :=
  ∃ next, m.run = .perform (.start name) next ∧
    ∀ x, Answered x → Determined false (ExceptT.mk (next x) : Act α)

namespace Launches

theorem start (name : Value) : Launches name (Act.start name) :=
  ⟨.done, rfl, fun _ hx => .ofExcept hx⟩

theorem bind {name : Value} {m : Act α} {f : α → Act β} (h : Launches name m)
    (hf : ∀ a, Determined false (f a)) : Launches name (m >>= f) := by
  obtain ⟨next, hm, hn⟩ := h
  refine ⟨fun x => (next x).bind (ExceptT.bindCont f), ?_, fun x hx => (hn x hx).bind hf⟩
  show m.run.bind _ = _
  rw [hm]
  rfl

theorem tryCatch {name : Value} {m : Act α} {f : Fault → Act α} (h : Launches name m)
    (hf : ∀ e, e.escapes = false → Determined false (f e)) (he : ∀ e, e.escapes → f e = throw e) :
    Launches name (MonadExcept.tryCatch m f) := by
  obtain ⟨next, hm, hn⟩ := h
  refine ⟨fun x => (MonadExcept.tryCatch (ExceptT.mk (next x) : Act α) f).run, ?_,
    fun x hx => (hn x hx).tryCatch hf he⟩
  show m.run.bind _ = _
  rw [hm]
  rfl

theorem opens {name : Value} {m : Act α} (h : Launches name m) : Opens name m := by
  obtain ⟨next, hm, hn⟩ := h
  exact ⟨next, hm, fun x hx => (hn x hx).tame⟩

end Launches

end Act

end Macros
