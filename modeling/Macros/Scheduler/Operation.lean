import Macros.Scheduler.Advance

/-!
Whole histories of a session: what users and the driver do to it, one operation after the other.
Control calls also come in while an operation is under way; that is up to the client.
-/

namespace Macros

inductive Operation
  | control (c : Control)
  | tick
  | step
  | shutdown
  /-- Others change the tree and the settings. -/
  | edit (tree : Tree) (settings : Settings)

/-- The session after an operation, also if that ends in a fault. -/
def Operation.apply {σ τ : Type} (c : Client σ τ) (b : Bridge τ) (s : Session σ τ) :
    Operation → Session σ τ
  | control k => k.apply b s
  | tick => (s.tick c b).2
  | step => (s.step c b).2
  | shutdown => s.shutdown
  | edit tree settings => { s with tree := tree, settings := settings }

/-- The session after operations, one after the other. -/
def Session.operate {σ τ : Type} (c : Client σ τ) (b : Bridge τ) (s : Session σ τ)
    (xs : List Operation) : Session σ τ :=
  xs.foldl (fun s x => x.apply c b s) s

/-- The sessions that operations lead to, from one in which nothing is running. -/
inductive Session.Reachable {σ τ : Type} (c : Client σ τ) (b : Bridge τ) : Session σ τ → Prop
  | idle (tree : Tree) (settings : Settings) (registry : Registry) (client : σ) :
    Reachable c b (Session.idle tree settings registry client)
  | after {s : Session σ τ} (x : Operation) : Reachable c b s → Reachable c b (x.apply c b s)

theorem Session.Reachable.operate {σ τ : Type} {c : Client σ τ} {b : Bridge τ} {s : Session σ τ}
    (h : s.Reachable c b) (xs : List Operation) : (s.operate c b xs).Reachable c b := by
  induction xs generalizing s with
  | nil => exact h
  | cons x xs ih => exact ih (h.after x)

end Macros
