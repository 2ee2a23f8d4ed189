import Macros.Proofs.Scheduler.Journal
import Mathlib.Logic.Relation

/-!
Everything that can happen to a session, cut into elementary changes. Whatever operation is carried
out, the session goes through a chain of these, so a property of all sessions that come about is
proved by looking at each change once. A change carries what is known where it is made.
-/

namespace Macros

open Relation Session

variable {σ τ : Type}

/-- The work that a frame starts with. -/
inductive Work.Fresh : Work τ → Prop
  | native (is : List Instruction) : Fresh (.native (NativeWork.start is))
  | script (run : ScriptRun τ) : Fresh (.script (ScriptWork.start run))

namespace Session

/-- Has a line been handed over? -/
def HandsOver (s : Session σ τ) : Prop := ∃ id i, .handed id i ∈ s.journal

inductive Change (o : Oracle σ τ) : Session σ τ → Session σ τ → Prop
  | client (s : Session σ τ) (k : Call) : Change o s { s with client := (o k s).2.2 }
  | remark (s : Session σ τ) (e : Event) (he : e.isRemark) : Change o s (s.record e)
  | calling (s : Session σ τ) (c : Control) : Change o s (s.record (.calling c))
  | called (s : Session σ τ) (c : Control) (b : Bool) (h : c = .stop false → s.stack = []) :
    Change o s (s.record (.called c b))
  | hand (s : Session σ τ) (id : Nat) (i : Instruction)
    (h : s.owns id ∨ Journal.StopSinceResume id s.journal) : Change o s (s.record (.handed id i))
  | send (s : Session σ τ) (id : Nat) (v : Value) (h : s.owns id) :
    Change o s (s.record (.sent id v))
  | push (s : Session σ τ) (node : NodeId) (text : String) (work : Work τ) (hw : work.Fresh)
    (hd : s.stack.length < Limits.maxFrameDepth)
    (hj : Journal.stopped s.journal = false ∨ s.HandsOver) : Change o s (s.push node text work)
  | pop (s : Session σ τ) (f : Frame τ) (r : FrameResult) (hf : f ∈ s.stack) :
    Change o s (s.pop f r)
  | mark (s : Session σ τ) (id : Nat) (pauses stops : Frame τ → Bool) :
    Change o s
      (s.modify id fun f => { f with pauseAtLoop := pauses f, stopAtLoop := stops f })
  | goTo (s : Session σ τ) (id : Nat) (k : NativeWork → Nat)
    (h : ∀ f ∈ s.stack, f.id = id → ∀ w, f.work = .native w → k w ≤ w.instructions.length) :
    Change o s (s.modifyNative id fun w => { w with cursor := k w })
  | passLoop (s : Session σ τ) (id k : Nat) (n : Option Int)
    (h : ∀ f ∈ s.stack, f.id = id → ∀ w, f.work = .native w →
      ∃ i, w.instructions[k]? = some i ∧ i.command = "loop" ∧ loopCount i = n) :
    Change o s (s.modifyNative id fun w => passLoop w k n)
  | script (s : Session σ τ) (id : Nat) (g : ScriptWork τ → ScriptWork τ) :
    Change o s (s.modifyScript id g)
  | pause (s : Session σ τ) (h : s.state = .running) : Change o s (s.setState .paused)
  | resume (s : Session σ τ) (h : s.state = .paused) : Change o s (s.setState .running)
  | foresee (s : Session σ τ) (x : RunState) (h : s.state = .notReady)
    (hx : x = .running ∨ x = .paused) : Change o s { s with prior := x }
  | await (s : Session σ τ) (h : s.state ≠ .notReady) (hs : s.stack ≠ []) :
    Change o s ({ s with prior := s.state }.setState .notReady)
  | leave (s : Session σ τ) (h : s.prior = .running ∨ s.prior = .paused) :
    Change o s (s.setState (if s.stack.isEmpty then .idle else s.prior))
  | rest (s : Session σ τ) (h : s.stack = []) : Change o s (s.setState .idle)
  | halt (s : Session σ τ) (h : s.stack = []) : Change o s { s with stopEvent := true }
  | clear (s : Session σ τ) : Change o s { s with freshRun := false, stopEvent := false }
  | close (s : Session σ τ) : Change o s { s with closed := true, hasRunner := false }
  | edit (s : Session σ τ) (tree : Tree) (settings : Settings) :
    Change o s { s with tree := tree, settings := settings }

abbrev Changes (o : Oracle σ τ) : Session σ τ → Session σ τ → Prop := ReflTransGen (Change o)

variable {o : Oracle σ τ} {s s' : Session σ τ}

/-- What a change adds to the journal. -/
theorem Change.journal_suffix (hc : Change o s s') : s.journal <:+ s'.journal := by
  cases hc with
  | push => rw [push_eq]; exact List.suffix_append _ _
  | pop => rw [pop_eq]; exact List.suffix_append _ _
  | pause | resume | await | leave | rest => rw [setState_eq]; exact List.suffix_append _ _
  | remark | calling | called | hand | send => exact List.suffix_cons _ _
  | _ => exact List.suffix_refl _

theorem Changes.journal_suffix (hc : Changes o s s') : s.journal <:+ s'.journal := by
  induction hc with
  | refl => exact List.suffix_refl _
  | tail _ hc ih => exact ih.trans hc.journal_suffix

end Session

end Macros
