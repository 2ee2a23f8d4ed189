import Macros.Input.Keyboard
import Mathlib.Data.List.Induction
import Mathlib.Data.List.Lattice

/-!
Keys that are down. What goes to the focused window is a row of events, and a key is down if the last event
for it is a press. Whatever is asked of the desktop, a key that is down is among those held, so none is down
once all have been let go.
-/

namespace Macros

namespace KeyEvent

/-- The key that an event is for. -/
def key? : KeyEvent → Option Key
  | press k => some k
  | release k => some k
  | pause _ => none

/-- The events for one key. -/
def onlyFor (k : Key) (es : List KeyEvent) : List KeyEvent := es.filter (·.key? = some k)

/-- The last event for the key is a press. -/
def Down (es : List KeyEvent) (k : Key) : Prop := (onlyFor k es).getLast? = some (press k)

instance (es : List KeyEvent) (k : Key) : Decidable (Down es k) :=
  inferInstanceAs (Decidable (_ = _))

variable {es fs : List KeyEvent} {k : Key} {ks : List Key}

theorem onlyFor_append : onlyFor k (es ++ fs) = onlyFor k es ++ onlyFor k fs := List.filter_append es fs

/-- Later events decide, if there are any for the key. -/
theorem down_append : Down (es ++ fs) k ↔ Down fs k ∨ onlyFor k fs = [] ∧ Down es k := by
  unfold Down
  rw [onlyFor_append]
  cases h : onlyFor k fs with
  | nil => simp
  | cons e t => simp [List.getLast?_append, List.getLast?_cons]

theorem onlyFor_map {f : Key → KeyEvent} (hf : ∀ j, (f j).key? = some j) :
    onlyFor k (ks.map f) = [] ↔ k ∉ ks := by
  rw [onlyFor, List.filter_eq_nil_iff]
  constructor
  · intro h hk
    exact h (f k) (List.mem_map_of_mem hk) (by simp [hf])
  · intro h e he
    obtain ⟨j, hj, rfl⟩ := List.mem_map.1 he
    simp only [hf, Option.some.injEq, decide_eq_true_eq]
    rintro rfl
    exact h hj

theorem onlyFor_press : onlyFor k (ks.map press) = [] ↔ k ∉ ks := onlyFor_map fun _ => rfl

theorem onlyFor_release : onlyFor k (ks.map release) = [] ↔ k ∉ ks := onlyFor_map fun _ => rfl

theorem mem_of_down_press (h : Down (ks.map press) k) : k ∈ ks := by
  by_contra hk
  rw [Down, onlyFor_press.2 hk] at h
  contradiction

theorem not_down_release : ¬Down (ks.map release) k := by
  intro h
  obtain ⟨hm, -⟩ := List.mem_filter.1 (List.mem_of_getLast? h)
  simp at hm

/-- A combination that is pressed and let go leaves none of its keys down. -/
theorem not_down_stroke (t : Binary64) :
    ¬Down (ks.map press ++ .pause t :: ks.reverse.map release) k := by
  intro h
  have hcut : ks.map press ++ pause t :: ks.reverse.map release =
      (ks.map press ++ [pause t]) ++ ks.reverse.map release := by simp
  rw [hcut, down_append] at h
  rcases h with h | ⟨hlast, h⟩
  · exact not_down_release h
  · have hk : k ∉ ks := by simpa using onlyFor_release.1 hlast
    rcases down_append.1 h with h | ⟨-, h⟩
    · simp [Down, onlyFor, key?] at h
    · exact hk (mem_of_down_press h)

end KeyEvent

namespace Key

end Key

/-- The combination that a request is for, if it is one for the keyboard. -/
def Request.combo? : Request → Option Value
  | .send combo => some combo
  | .hold combo => some combo
  | .release combo => some combo
  | _ => none

/-- What is asked of the desktop. -/
inductive DesktopCall
  | ask (r : Request)
  | releaseAll

namespace Desktop

open KeyEvent

/-- The desktop after a call, and the events that the call sends. -/
def handle (d : Desktop) : DesktopCall → Desktop × List KeyEvent
  | .ask r => (d.answer r).2
  | .releaseAll => d.releaseAll

theorem handle_ask (d : Desktop) (r : Request) : d.handle (.ask r) = (d.answer r).2 := rfl

/-- The desktop after calls, one after the other, and all events that they send. -/
def playFrom (d : Desktop) (es : List KeyEvent) (calls : List DesktopCall) : Desktop × List KeyEvent :=
  calls.foldl (fun p c => ((p.1.handle c).1, p.2 ++ (p.1.handle c).2)) (d, es)

def play (calls : List DesktopCall) : Desktop × List KeyEvent := playFrom .idle [] calls

/-- Every key that is down is held. -/
def Covers (d : Desktop) (es : List KeyEvent) : Prop := ∀ k, Down es k → k ∈ d.held

variable {d d' : Desktop} {es fs : List KeyEvent}

theorem Covers.append (h : d.Covers es) (hnew : d'.Covers fs)
    (hold : ∀ k ∈ d.held, onlyFor k fs = [] → k ∈ d'.held) : d'.Covers (es ++ fs) := by
  intro k hk
  rcases down_append.1 hk with hk | ⟨hnone, hk⟩
  · exact hnew k hk
  · exact hold k (h k hk) hnone

theorem Covers.silent (h : d.Covers es) : d.Covers (es ++ []) := by rwa [List.append_nil]

theorem typed_ok {f : String → Except KeyError (Desktop × List KeyEvent)} {s : String}
    (h : f s = .ok (d', es)) : d.typed (.text s) f = (.ok true, d', es) := by
  rw [typed, h]

theorem typed_error {f : String → Except KeyError (Desktop × List KeyEvent)} {s : String}
    {e : KeyError} (h : f s = .error e) :
    d.typed (.text s) f = (.error (.failed .unsupported e.message), d, []) := by
  rw [typed, h]

/-! The keys that are read are all that an answer needs to know of a combination. -/

theorem answer_send {s : String} {ks : List Key} (h : Key.parseCombo s = .ok ks) :
    d.answer (.send (.text s)) =
      (.ok true, d, ks.map KeyEvent.press ++ .pause holdTime :: ks.reverse.map .release) :=
  typed_ok (f := fun s => (pressKeys s).map (d, ·))
    (congrArg (fun keys => (Except.map _ keys).map (d, ·)) h)

theorem answer_hold {s : String} {ks : List Key} (h : Key.parseCombo s = .ok ks) :
    d.answer (.hold (.text s)) = (.ok true, ⟨d.held ++ ks⟩, ks.map KeyEvent.press) :=
  typed_ok (congrArg (Except.map _) h)

theorem answer_release {s : String} {ks : List Key} (h : Key.parseCombo s = .ok ks) :
    d.answer (.release (.text s)) =
      (.ok true, ⟨ks.reverse.foldl (fun held k => held.erase k) d.held⟩,
        ks.reverse.map KeyEvent.release) :=
  typed_ok (congrArg (Except.map _) h)

/-- A combination with an unknown key is refused, and nothing happens. -/
theorem answer_unknown {r : Request} {s : String} {e : KeyError} (hr : r.combo? = some (.text s))
    (h : Key.parseCombo s = .error e) : d.answer r = (.error (.failed .unsupported e.message), d, []) := by
  cases r with
  | send combo =>
    obtain rfl := Option.some.inj hr
    exact typed_error (f := fun s => (pressKeys s).map (d, ·))
      (congrArg (fun keys => (Except.map _ keys).map (d, ·)) h)
  | hold combo =>
    obtain rfl := Option.some.inj hr
    exact typed_error (congrArg (Except.map _) h)
  | release combo =>
    obtain rfl := Option.some.inj hr
    exact typed_error (congrArg (Except.map _) h)
  | _ => cases hr

/-- Nothing happens unless keys are typed. -/
theorem answer_silent {r : Request} (h : ∀ s ks, r.combo? = some (.text s) → Key.parseCombo s ≠ .ok ks) :
    (d.answer r).2 = (d, []) := by
  cases hr : r.combo? with
  | none => cases r <;> first | rfl | simp [Request.combo?] at hr
  | some combo =>
    cases combo with
    | text s =>
      cases hs : Key.parseCombo s with
      | ok ks => exact absurd hs (h s ks hr)
      | error e => rw [answer_unknown hr hs]
    | _ => cases r <;> simp [Request.combo?] at hr <;> subst hr <;> rfl

theorem Covers.press (h : d.Covers es) (ks : List Key) :
    d.Covers (es ++ (ks.map KeyEvent.press ++ .pause holdTime :: ks.reverse.map .release)) :=
  h.append (fun _ hk => absurd hk (not_down_stroke _)) fun _ hk _ => hk

theorem Covers.hold (h : d.Covers es) (ks : List Key) :
    Covers ⟨d.held ++ ks⟩ (es ++ ks.map KeyEvent.press) := by
  apply h.append
  · intro k hk
    exact List.mem_append_right _ (mem_of_down_press hk)
  · intro k hk _
    exact List.mem_append_left _ hk

theorem Covers.release (h : d.Covers es) (ks : List Key) :
    Covers ⟨ks.reverse.foldl (fun held k => held.erase k) d.held⟩
      (es ++ ks.reverse.map KeyEvent.release) := by
  apply h.append
  · intro k hk
    exact absurd hk not_down_release
  · intro k hk hnone
    rw [← List.diff_eq_foldl]
    exact List.mem_diff_of_mem hk (onlyFor_release.1 hnone)

/-- One call keeps all keys that are down among those held. -/
theorem Covers.handle (h : d.Covers es) (c : DesktopCall) :
    (d.handle c).1.Covers (es ++ (d.handle c).2) := by
  cases c with
  | releaseAll =>
    apply h.append
    · intro k hk
      exact absurd hk not_down_release
    · intro k hk hnone
      exact absurd (List.mem_reverse.2 hk) (onlyFor_release.1 hnone)
  | ask r =>
    by_cases htyped : ∃ s ks, r.combo? = some (.text s) ∧ Key.parseCombo s = .ok ks
    · obtain ⟨s, ks, hr, hs⟩ := htyped
      cases r with
      | send combo =>
        obtain rfl := Option.some.inj hr
        rw [handle_ask, answer_send hs]
        exact h.press ks
      | hold combo =>
        obtain rfl := Option.some.inj hr
        rw [handle_ask, answer_hold hs]
        exact h.hold ks
      | release combo =>
        obtain rfl := Option.some.inj hr
        rw [handle_ask, answer_release hs]
        exact h.release ks
      | _ => cases hr
    · have hsilent : (d.answer r).2 = (d, []) := answer_silent fun s ks hr hs => htyped ⟨s, ks, hr, hs⟩
      rw [handle_ask, hsilent]
      exact h.silent

end Desktop

end Macros
