import Macros.Proofs.Scheduler.Planned
import Macros.Proofs.Scheduler.Driver

/-!
Sessions are sound at every moment, also while a line or a script is under way. To look at a
session in flight, the client is made to keep a picture of it whenever it is called.
-/

namespace Macros

open Session

variable {σ τ : Type}

/-- The session as a client sees it that keeps no pictures. -/
def Session.seen (s : Session (σ × List (Session σ τ)) τ) : Session σ τ :=
  { s with client := s.client.1 }

/-- Answers as before, and keeps a picture of the session at each call. -/
def Oracle.filmed (o : Oracle σ τ) : Oracle (σ × List (Session σ τ)) τ := fun k s =>
  let (a, cs, client) := o k s.seen
  (a, cs, client, s.seen :: s.client.2)

namespace Session

theorem Sound.seen {s : Session (σ × List (Session σ τ)) τ} (h : s.Sound) : s.seen.Sound :=
  ⟨h.idle_iff, h.prior, h.depth, h.numbered, h.fresh, h.frames⟩

/-- All pictures are of sound sessions. -/
def Pictured (s : Session (σ × List (Session σ τ)) τ) : Prop := ∀ m ∈ s.client.2, m.Sound

variable {o : Oracle σ τ} {s s' : Session (σ × List (Session σ τ)) τ} {P : Session σ τ → Prop}

/-- A picture is of the session at which the client was called. -/
theorem Change.shows (hc : Change o.filmed s s') (h : P s.seen) (hp : ∀ m ∈ s.client.2, P m) :
    ∀ m ∈ s'.client.2, P m := by
  cases hc with
  | client k =>
    intro m hm
    rcases List.mem_cons.1 hm with rfl | hm
    · exact h
    · exact hp m hm
  | push => rw [push_eq]; exact hp
  | pop => rw [pop_eq]; exact hp
  | pause | resume | await | leave | rest => rw [setState_eq]; exact hp
  | _ => exact hp

/-- What every change preserves holds of every picture. -/
theorem Changes.shows {R : Session (σ × List (Session σ τ)) τ → Prop}
    (hR : ∀ {s s'}, Change o.filmed s s' → R s → R s') (hP : ∀ {s}, R s → P s.seen)
    (hc : Changes o.filmed s s') (h : R s) (hp : ∀ m ∈ s.client.2, P m) :
    ∀ m ∈ s'.client.2, P m := by
  have hs : R s' ∧ ∀ m ∈ s'.client.2, P m := by
    induction hc with
    | refl => exact ⟨h, hp⟩
    | tail _ hc ih => exact ⟨hR hc ih.1, hc.shows (hP ih.1) ih.2⟩
  exact hs.2

theorem Changes.pictured (hc : Changes o.filmed s s') (h : s.Sound) (hp : s.Pictured) :
    s'.Pictured :=
  hc.shows (fun hc h => hc.sound h) Sound.seen h hp

/-- Whatever is done to a session in which nothing was running, it is sound after each operation,
and also whenever the client is called and any control calls have come in. -/
theorem sound_at_every_moment (b : Bridge τ) (o : Oracle σ τ) (tree : Tree) (settings : Settings)
    (registry : Registry) (client : σ) (xs : List Operation) :
    ((Session.idle tree settings registry client).operate (.ofOracle b o) b xs).Sound ∧
      ∀ m ∈ ((Session.idle tree settings registry (client, [])).operate
          (.ofOracle b o.filmed) b xs).client.2,
        ∀ cs, (m.land b cs).Sound := by
  constructor
  · have h := Sound.idle (τ := τ) tree settings registry client
    exact (operate_changes (o := o) h xs).sound h
  · intro m hm cs
    have h := Sound.idle (τ := τ) tree settings registry (client, ([] : List (Session σ τ)))
    have hc := operate_changes (o := o.filmed) (b := b) h xs
    have hp : m.Sound := hc.pictured h (by simp [Pictured, Session.idle]) m hm
    exact ((meanwhile b o).land cs hp).changes.sound hp

/-- A script whose line starts a macro with a loop; while the script is resumed the user pauses, and
then starts that macro as well. -/
def flight {σ : Type} (client : σ) : Session σ Lines :=
  .idle (.ofDocument (.folder (.text "/") [.native "A" "/send X\n/loop 2", .script "S"])) .fresh
    .builtin client

def flightBridge : Bridge Lines := .listed [(1, "/runmacro A")]

def flightPlan : Plan := [(true, []), (true, [.pause false, .runByName "A" none])]

def flightOperations : List Operation := [.control (.runByName "S" none), .tick, .tick, .tick, .tick]

theorem flight_sound :
    ((flight flightPlan).operate (.ofOracle flightBridge .planned) flightBridge
        flightOperations).stack.length = 3 ∧
      ((flight flightPlan).operate (.ofOracle flightBridge .planned) flightBridge flightOperations).Sound ∧
      ((flight (flightPlan, [])).operate (.ofOracle flightBridge (Oracle.filmed .planned))
        flightBridge flightOperations).client.2.length = 7 ∧
      ∀ m ∈ ((flight (flightPlan, [])).operate (.ofOracle flightBridge (Oracle.filmed .planned))
          flightBridge flightOperations).client.2,
        ∀ cs, (m.land flightBridge cs).Sound := by
  have h := sound_at_every_moment flightBridge .planned
    (.ofDocument (.folder (.text "/") [.native "A" "/send X\n/loop 2", .script "S"])) .fresh
    .builtin flightPlan flightOperations
  refine ⟨?_, h.1, ?_, h.2⟩
  · decide +kernel
  · decide +kernel

end Session

end Macros
