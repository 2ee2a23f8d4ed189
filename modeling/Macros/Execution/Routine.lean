import Macros.Fault
import Macros.Notifier

/-!
Routines: computations that ask for what happens outside of them, one effect at a time, and go on
with the answer. Whoever runs a routine decides the answers, and can act in between.
-/

namespace Macros

/-- What a line asks of the game client; the answer is yes or no. Names are passed on as they stand
in the instruction, and it is for the client to refuse them. -/
inductive Request
  | action (name : Value)
  | actionConfirmed (name : Value)
  | target (name index : Value)
  | hasItem (name : Value)
  | canUseItem (name : Value)
  | useItem (name : Value)
  | addonExists (name : Value)
  | addonVisible (name : Value)
  | click (name : Value)
  | send (combo : Value)
  | hold (combo : Value)
  | release (combo : Value)
  | hasStatus (name : Value)

inductive Effect
  /-- Asks the client. -/
  | ask (r : Request)
  /-- The current crafting condition. -/
  | condition
  /-- Sleeps for some seconds. -/
  | sleep (seconds : Binary64)
  /-- Has a stop been asked for? -/
  | stopped
  /-- A random number between zero and one. -/
  | draw
  /-- Starts another macro. -/
  | start (name : Value)
  | log (level : Level) (message : Value)

abbrev Effect.Answer : Effect → Type
  | .ask _ => Except Fault Bool
  | .condition => Except Fault String
  | .sleep _ => Unit
  | .stopped => Bool
  | .draw => Binary64
  | .start _ => Except Fault Unit
  | .log _ _ => Unit

inductive Routine (α : Type)
  | done (a : α)
  | perform (e : Effect) (next : e.Answer → Routine α)

namespace Routine

variable {α β W : Type}

def bind : Routine α → (α → Routine β) → Routine β
  | done a, f => f a
  | perform e next, f => perform e fun x => (next x).bind f

instance : Monad Routine where
  pure := done
  bind := bind

/-- Just one effect. -/
def effect (e : Effect) : Routine e.Answer := perform e done

/-- Runs a routine in a world that answers its effects. -/
def run (answer : (e : Effect) → W → e.Answer × W) : Routine α → W → α × W
  | done a, w => (a, w)
  | perform e next, w => run answer (next (answer e w).1) (answer e w).2

theorem run_done (answer : (e : Effect) → W → e.Answer × W) (a : α) (w : W) :
    run answer (done a) w = (a, w) := rfl

theorem run_bind (answer : (e : Effect) → W → e.Answer × W) (r : Routine α) (f : α → Routine β)
    (w : W) : run answer (r.bind f) w = run answer (f (run answer r w).1) (run answer r w).2 := by
  induction r generalizing w with
  | done a => rfl
  | perform e next ih => exact ih _ _

end Routine

/-- A routine that can end in a fault. -/
abbrev Act (α : Type) := ExceptT Fault Routine α

namespace Act

def ofExcept {α : Type} (x : Except Fault α) : Act α := ExceptT.mk (.done x)

/-- A value that has to fit. -/
def fit {α : Type} (x : Except Misfit α) : Act α := ofExcept (x.mapError .misfit)

def ask (r : Request) : Act Bool := ExceptT.mk (Routine.effect (.ask r))

def condition : Act String := ExceptT.mk (Routine.effect .condition)

def start (name : Value) : Act Unit := ExceptT.mk (Routine.effect (.start name))

def sleep (seconds : Binary64) : Act Unit := ExceptT.lift (Routine.effect (.sleep seconds))

def stopped : Act Bool := ExceptT.lift (Routine.effect .stopped)

def draw : Act Binary64 := ExceptT.lift (Routine.effect .draw)

/-- Reports a value as it is. -/
def say (level : Level) (message : Value) : Act Unit :=
  ExceptT.lift (Routine.effect (.log level message))

def log (level : Level) (message : String) : Act Unit := say level (.text message)

end Act

end Macros
