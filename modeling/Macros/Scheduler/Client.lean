import Macros.Scheduler.Control

/-!
Game clients. A client answers what a line asks and what a script calls, and while it does so
anything may happen to the session; `ofOracle` makes the client whose answers come from an oracle,
which sees the session and lets control calls come in with every answer.
-/

namespace Macros

structure Client (σ τ : Type) where
  /-- Can lines be run? A client that cannot tell is not ready. -/
  ready : Session σ τ → Bool × Session σ τ
  ask : Request → Session σ τ → Except Fault Bool × Session σ τ
  condition : Session σ τ → Except Fault String × Session σ τ
  sleep : Binary64 → Session σ τ → Session σ τ
  draw : Session σ τ → Binary64 × Session σ τ
  /-- A script calls a host function. -/
  hostCall : Session σ τ → Session σ τ
  /-- A line starts a macro; none if that is left to the session. -/
  takeStart : Value → Session σ τ → Option (Except Fault Unit × Session σ τ)

/-- What a client is called for. -/
inductive Call
  | ready
  | ask (r : Request)
  | condition
  | sleep (seconds : Binary64)
  | draw
  | hostCall

abbrev Call.Answer : Call → Type
  | .ready => Bool
  | .ask _ => Except Fault Bool
  | .condition => Except Fault String
  | .sleep _ => Unit
  | .draw => Binary64
  | .hostCall => Unit

/-- Answers to every call, with the control calls that come in meanwhile and the client
afterwards. -/
abbrev Oracle (σ τ : Type) := (k : Call) → Session σ τ → k.Answer × List Control × σ

namespace Session

variable {σ τ : Type}

/-- Control calls come in one after the other. -/
def land (b : Bridge τ) (cs : List Control) (s : Session σ τ) : Session σ τ :=
  cs.foldl (fun s c => c.apply b s) s

/-- The answer to an effect of the line that is running. -/
def answer (c : Client σ τ) (b : Bridge τ) :
    (e : Effect) → Session σ τ → e.Answer × Session σ τ
  | .ask r, s => c.ask r s
  | .condition, s => c.condition s
  | .sleep t, s => ((), c.sleep t s)
  | .stopped, s => (s.stopEvent, s)
  | .draw, s => c.draw s
  | .start name, s => (c.takeStart name s).getD (s.runNested b name)
  | .log level message, s => ((), s.say level message)

end Session

/-- An oracle answers a call, and its control calls come in. -/
def Oracle.respond {σ τ : Type} (b : Bridge τ) (o : Oracle σ τ) (k : Call) (s : Session σ τ) :
    k.Answer × Session σ τ :=
  let (a, cs, client) := o k s
  (a, { s with client := client }.land b cs)

def Client.ofOracle {σ τ : Type} (b : Bridge τ) (o : Oracle σ τ) : Client σ τ where
  ready := Oracle.respond b o .ready
  ask r := Oracle.respond b o (.ask r)
  condition := Oracle.respond b o .condition
  sleep t s := (Oracle.respond b o (.sleep t) s).2
  draw := Oracle.respond b o .draw
  hostCall s := (Oracle.respond b o .hostCall s).2
  takeStart _ _ := none

end Macros
