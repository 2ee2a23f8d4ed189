import Macros.Proofs.Scheduler.Journal

/-!
The exchange of values and lines with a script, as it is to go: which value is due next, which line
is to be run, and when nothing is sent any more. One follows it through the journal, for every frame
by itself, and each event of the frame is allowed or not.
-/

namespace Macros

/-- What the exchange with a script depends on. -/
structure Rules (τ : Type) where
  interpreter : Interpreter τ
  registry : Registry
  settings : Settings

/-- How far the exchange with a script has come; `count` lines have been yielded. -/
inductive Talk (τ : Type)
  /-- There has been no such frame. -/
  | absent
  /-- A script has been loaded, and nothing was reported since. -/
  | loaded (script : τ)
  /-- The value is to be sent next. -/
  | due (script : τ) (count : Nat) (value : Value)
  /-- A line was yielded, and is to be run until it comes to an outcome. -/
  | running (script : τ) (count : Nat) (i : Instruction)
  /-- Nothing is to be sent any more. -/
  | ended

namespace Talk

variable {τ : Type} (ρ : Rules τ) (id : Nat)

/-- A script has yielded its line number `count`. A line that cannot be read, or says nothing, is
answered without being run. -/
def yield (script : τ) (count : Nat) (line : String) : Talk τ :=
  match Line.read ρ.registry line (count - 1) with
  | .error _ => due script count (.flag false)
  | .ok none => due script count (.flag true)
  | .ok (some i) => running script count i

def afterStep (count : Nat) : Signal τ → Talk τ
  | .yielded v script => yield ρ script (count + 1) (ScriptRun.lineOf v)
  | .returned | .failed _ => ended

/-- A line that went well, or was skipped, is answered with yes, and a failure with no, unless the
settings say that the macro is stopped. -/
def afterLine (script : τ) (count : Nat) (x : Outcome) : Talk τ :=
  if x.ok then due script count (.flag true)
  else
    match ρ.settings.isStopWorthy x with
    | .ok true => ended
    | _ => due script count (.flag false)

/-- Only the frame that is put on right after the loading has the script. -/
def forget : Talk τ → Talk τ
  | loaded _ => absent
  | t => t

def load (r : LoadRequest) : Talk τ → Talk τ
  | absent | loaded _ =>
    match ρ.interpreter.load r with
    | .ok script => loaded script
    | .error _ => absent
  | t => t

/-- The first value is always `null`; a native macro is sent none. -/
def push : Talk τ → Talk τ
  | loaded script => due script 0 .null
  | _ => ended

def send (v : Value) : Talk τ → Talk τ
  | due script count _ => afterStep ρ count (ρ.interpreter.send script v).signal
  | t => t

def settle (x : Outcome) : Talk τ → Talk τ
  | running script count _ => afterLine ρ script count x
  | t => t

/-- The exchange with the script of a frame after an event. -/
def next (t : Talk τ) : Event → Talk τ
  | .loaded r => t.load ρ r
  | .pushed j => if j = id then t.push else t.forget
  | .sent j v => if j = id then t.send ρ v else t.forget
  | .settled j _ x => if j = id then t.settle ρ x else t.forget
  | .popped j _ => if j = id then ended else t.forget
  | _ => t.forget

/-- May the event come now? A line may still be run for a frame that is gone. -/
def Allows (t : Talk τ) : Event → Prop
  | .sent j v => j = id → ∃ script count, t = due script count v
  | .handed j i => j = id → t = ended ∨ ∃ script count, t = running script count i
  | .settled j i _ => j = id → t = ended ∨ ∃ script count, t = running script count i
  | _ => True

/-- The exchange with the script of a frame, by a journal, which has its latest event first. -/
def read : List Event → Talk τ
  | [] => absent
  | e :: es => next ρ id (read es) e

/-- Did each event of a journal come when it might? -/
def Followed : List Event → Prop
  | [] => True
  | e :: es => Allows id (read ρ id es) e ∧ Followed es

/-- Has the frame been put on? -/
def isOn : Talk τ → Bool
  | absent | loaded _ => false
  | _ => true

end Talk

/-- Events that move no exchange, but for loading. -/
def Event.isAloof : Event → Bool
  | pushed _ | popped _ _ | sent _ _ | handed _ _ | settled _ _ _ => false
  | _ => true

def Event.isLoading : Event → Bool
  | loaded _ => true
  | _ => false

/-- The frame whose exchange the event moves. -/
def Event.frame? : Event → Option Nat
  | pushed j | popped j _ | sent j _ | handed j _ | settled j _ _ => some j
  | _ => none

/-- Events that move no exchange; a script that was loaded among them is not used. -/
structure Event.Idle (es : List Event) : Prop where
  aloof : ∀ e ∈ es, e.isAloof
  unused : ∀ e ∈ es.head?, e.isLoading = false

namespace Talk

variable {τ : Type} {ρ : Rules τ} {id : Nat} {es news : List Event}

theorem forget_of_isOn {t : Talk τ} (h : t.isOn) : t.forget = t := by
  cases t <;> first | rfl | simp [isOn] at h

theorem next_of_other {e : Event} {j : Nat} (he : e.frame? = some j) (hj : j ≠ id) (t : Talk τ) :
    next ρ id t e = t.forget := by
  cases e with
  | pushed | popped | sent | settled =>
    obtain rfl := Option.some.inj he
    exact if_neg hj
  | handed => rfl
  | _ => cases he

theorem allows_of_other {e : Event} {j : Nat} (he : e.frame? = some j) (hj : j ≠ id) (t : Talk τ) :
    Allows id t e := by
  cases e with
  | handed | sent | settled =>
    obtain rfl := Option.some.inj he
    exact fun h => absurd h hj
  | _ => trivial

theorem next_of_aloof {t : Talk τ} {e : Event} (h : t.isOn) (he : e.isAloof) : next ρ id t e = t := by
  cases e with
  | loaded r => cases t <;> first | rfl | simp [isOn] at h
  | pushed | popped | sent | handed | settled => simp [Event.isAloof] at he
  | _ => exact forget_of_isOn h

theorem allows_of_aloof {t : Talk τ} {e : Event} (he : e.isAloof) : Allows id t e := by
  cases e <;> trivial

theorem read_aloof (hn : ∀ e ∈ news, e.isAloof) (h : (read ρ id es).isOn) :
    read ρ id (news ++ es) = read ρ id es := by
  induction news with
  | nil => rfl
  | cons e news ih =>
    have h1 := ih fun e' h' => hn e' (List.mem_cons_of_mem e h')
    rw [List.cons_append, read, h1]
    exact next_of_aloof h (hn e (by simp))

theorem forget_of_off {t : Talk τ} (h : t.isOn = false) : t.forget = absent := by
  cases t <;> first | rfl | simp [isOn] at h

theorem isOn_push (t : Talk τ) : t.push.isOn := by cases t <;> rfl

theorem isOn_yield (script : τ) (count : Nat) (line : String) :
    (yield ρ script count line).isOn := by
  unfold yield
  split <;> rfl

theorem isOn_send {t : Talk τ} (v : Value) (h : t.isOn) : (t.send ρ v).isOn := by
  cases t with
  | due script count =>
    simp only [send, afterStep]
    split
    · exact isOn_yield _ _ _
    · rfl
    · rfl
  | _ => exact h

theorem isOn_settle {t : Talk τ} (x : Outcome) (h : t.isOn) : (t.settle ρ x).isOn := by
  cases t with
  | running script count i =>
    simp only [settle, afterLine]
    split
    · rfl
    · split <;> rfl
  | _ => exact h

theorem next_of_off {t : Talk τ} {e : Event} (h : t.isOn = false) (he : e.isAloof) :
    (next ρ id t e).isOn = false ∧ (e.isLoading = false → next ρ id t e = absent) := by
  have hf := forget_of_off h
  cases e with
  | loaded r =>
    refine ⟨?_, by simp [Event.isLoading]⟩
    cases t with
    | absent | loaded => simp only [next, load]; split <;> rfl
    | _ => simp [isOn] at h
  | pushed | popped | sent | handed | settled => simp [Event.isAloof] at he
  | _ => simp [next, hf, isOn]

theorem read_off (hn : ∀ e ∈ news, e.isAloof) (h : read ρ id es = absent) :
    (read ρ id (news ++ es)).isOn = false := by
  induction news with
  | nil => simp [h, isOn]
  | cons e news ih =>
    exact (next_of_off (ih fun e' h' => hn e' (List.mem_cons_of_mem e h')) (hn e (by simp))).1

/-- Before its frame is put on, an exchange does not begin. -/
theorem read_idle (hn : Event.Idle news) (h : read ρ id es = absent) :
    read ρ id (news ++ es) = absent := by
  cases news with
  | nil => exact h
  | cons e news =>
    have h1 := read_off (fun e' h' => hn.aloof e' (List.mem_cons_of_mem e h')) h
    exact (next_of_off h1 (hn.aloof e (by simp))).2 (hn.unused e rfl)

theorem Followed.aloof (hn : ∀ e ∈ news, e.isAloof) (h : Followed ρ id es) :
    Followed ρ id (news ++ es) := by
  induction news with
  | nil => exact h
  | cons e news ih =>
    exact ⟨allows_of_aloof (hn e (by simp)), ih fun e' h' => hn e' (List.mem_cons_of_mem e h')⟩

end Talk

end Macros
