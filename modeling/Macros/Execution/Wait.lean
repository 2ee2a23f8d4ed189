import Macros.Execution.Routine

/-!
Waiting. A wait is cut into short sleeps and looks for a stop before each. The time that has
passed is the sum of the sleeps; where that sum no longer grows the wait has no end, which is
reported as a fault. A time that is no number is found out when it is first compared.
-/

namespace Macros

namespace Wait

/-- How far a time is from being infinite, in units. -/
def room : Binary64 → Nat
  | .finite false u => Binary64.overflow - u
  | _ => 0

/-- The next sleep of a wait. -/
def chunk (total elapsed : Binary64) : Binary64 := Limits.sleepChunk.min (total.sub elapsed)

/-- Sleeps until `total` seconds have passed, or a stop is asked for. -/
def sleepFrom (total elapsed : Binary64) : Act Unit := do
  if elapsed.lt total then
    if ← Act.stopped then return
    let t := chunk total elapsed
    Act.sleep t
    if _h : room (elapsed.add t) < room elapsed then sleepFrom total (elapsed.add t)
    else throw .endless
termination_by room elapsed

/-- A time in seconds. A whole number that is too large to be one is still more than any time that
has passed; below zero it makes no difference how large it is. -/
def seconds (v : Value) : Except Misfit Binary64 :=
  match v.number?, v.toInt? with
  | some (.infinite false), some _ => .error .tooLarge
  | some x, _ => .ok x
  | none, _ => .error .wrongKind

/-- The end of a wait for a time that cannot be counted down. A stop is seen first if the time can
be compared at all. -/
def giveUp (m : Misfit) : Act Unit := do
  if m = .tooLarge then
    if ← Act.stopped then return
  throw (.misfit m)

def sleep (total : Value) : Act Unit :=
  match seconds total with
  | .ok t => sleepFrom t .zero
  | .error m => giveUp m

/-- Polls until an answer is yes; gives up once `limit` seconds have passed or a stop is asked
for. -/
def pollFrom (poll : Act Bool) (limit elapsed : Binary64) : Act Bool := do
  if ← poll then return true
  if ← Act.stopped then return false
  if limit.le elapsed then return false
  let t := chunk limit elapsed
  Act.sleep t
  if _h : room (elapsed.add t) < room elapsed then pollFrom poll limit (elapsed.add t)
  else throw .endless
termination_by room elapsed

def poll (question : Act Bool) (limit : Value) : Act Bool :=
  match seconds limit with
  | .ok t => pollFrom question t .zero
  | .error m => do
    if ← question then return true
    if ← Act.stopped then return false
    throw (.misfit m)

/-- A time from a range of two; the lower end if the range is a point. -/
def pick (span : Value) : Act Value := do
  let (low, high) ← Act.fit span.pair
  match high.atMost? low with
  | none => throw (.misfit .wrongKind)
  | some true => return low
  | some false =>
    let width ← Act.fit (high.minus low)
    let r ← Act.draw
    let part := (← Act.fit width.toBinary).mul r
    return .number ((← Act.fit low.toBinary).add part)

end Wait

end Macros
