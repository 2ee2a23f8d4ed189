import Macros.Scheduler.Operation

/-!
A client that follows a plan, and scripts that are lists of lines. They are small enough for the
sessions they lead to to be computed.
-/

namespace Macros

/-- The answers of a client that does what it is asked, or is away. -/
def Call.answer (here : Bool) : (k : Call) → k.Answer
  | .ready => here
  | .ask _ => if here then .ok true else .error (.unavailable "away")
  | .condition => .ok ""
  | .sleep _ => ()
  | .draw => .zero
  | .hostCall => ()

/-- A client that does what it is asked, while nothing comes in. -/
def Oracle.still {σ τ : Type} : Oracle σ τ := fun k s => (k.answer true, [], s.client)

/-- A client that is there or away as listed, and does what it is asked from then on. -/
def Oracle.patchy {τ : Type} : Oracle (List Bool) τ := fun k s =>
  (k.answer (s.client.headD true), [], s.client.tail)

/-- For each call in turn: is the client there, and which control calls come in? -/
abbrev Plan := List (Bool × List Control)

/-- A client that follows a plan; once that is over it does what it is asked. -/
def Oracle.planned {τ : Type} : Oracle Plan τ := fun k s =>
  (k.answer (s.client.headD (true, [])).1, (s.client.headD (true, [])).2, s.client.tail)

/-- The lines of a script, each with the number of host calls made before it. -/
abbrev Lines := List (Nat × String)

def Lines.send : Lines → Value → Advance Lines
  | [], _ => ⟨0, .returned⟩
  | (n, line) :: rest, _ => ⟨n, .yielded (.text line) rest⟩

/-- Every script has the same lines. -/
def Bridge.listed (lines : Lines) : Bridge Lines := ⟨[], ⟨fun _ => .ok lines, Lines.send⟩⟩

def Document.native (name contents : String) : Document :=
  .leaf (.text name) (.ofContents (.text contents) .native)

def Document.script (name : String) : Document :=
  .leaf (.text name) (.ofContents (.text "") .lua)

/-- Nothing is running, and the macros are those given. -/
def Session.waiting {σ τ : Type} (macros : List Document) (client : σ) : Session σ τ :=
  .idle (.ofDocument (.folder (.text "/") macros)) .fresh .builtin client

end Macros
