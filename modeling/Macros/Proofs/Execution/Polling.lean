import Macros.Proofs.Execution.Moments
import Macros.Proofs.Number.Elapsed

/-!
Polling. A question is asked at once, and again after each short sleep, until the answer is yes, a stop is
seen, or the time is up. A time that is longer than can pass is never up.
-/

namespace Macros

variable {W : Type} {answer : (e : Effect) → W → e.Answer × W}

/-- A stop that was seen is seen from then on. -/
def StopStays (answer : (e : Effect) → W → e.Answer × W) : Prop :=
  ∀ e w, (answer .stopped w).1 = true → (answer .stopped (answer e w).2).1 = true

/-- A question that the client always answers. -/
def AlwaysAnswers (answer : (e : Effect) → W → e.Answer × W) (q : Request) : Prop :=
  ∀ w, ∃ b, (answer (.ask q) w).1 = .ok b

/-- The replies while a question is polled, what that comes to, and the world it leaves. -/
inductive Polled (answer : (e : Effect) → W → e.Answer × W) (q : Request) (limit : Binary64) :
    List Effect.Reply → Except Fault Bool → W → Prop
  | yes (w : W) : Polled answer q limit [⟨.ask q, .ok true⟩] (.ok true) w
  | stop {w : W} (h : (answer .stopped w).1 = true) :
    Polled answer q limit [⟨.ask q, .ok false⟩, ⟨.stopped, true⟩] (.ok false) w
  | timeUp (w : W) (h : limit.le Wait.reach) :
    Polled answer q limit [⟨.ask q, .ok false⟩, ⟨.stopped, false⟩] (.ok false) w
  | endless (t : Binary64) (w : W) (h : limit.le Wait.reach = false) :
    Polled answer q limit [⟨.ask q, .ok false⟩, ⟨.stopped, false⟩, ⟨.sleep t, ()⟩] (.error .endless) w
  | again (t : Binary64) {rs : List Effect.Reply} {x : Except Fault Bool} {w : W}
    (h : Polled answer q limit rs x w) :
    Polled answer q limit (⟨.ask q, .ok false⟩ :: ⟨.stopped, false⟩ :: ⟨.sleep t, ()⟩ :: rs) x w

namespace Polled

variable {q : Request} {limit : Binary64} {rs : List Effect.Reply} {x : Except Fault Bool} {w : W}

/-- The question is asked at least once. -/
theorem asked (h : Polled answer q limit rs x w) : ∃ r ∈ rs, r.effect = .ask q := by
  cases h <;> exact ⟨_, List.mem_cons_self, rfl⟩

/-- Nothing but the question is asked, and nothing is reported. -/
theorem effects (h : Polled answer q limit rs x w) {r : Effect.Reply} (hr : r ∈ rs) :
    r.effect = .ask q ∨ r.effect = .stopped ∨ r.effect.isSleep := by
  induction h with
  | again t _ ih =>
    simp only [List.mem_cons] at hr
    rcases hr with rfl | rfl | rfl | hr
    · exact .inl rfl
    · exact .inr (.inl rfl)
    · exact .inr (.inr rfl)
    · exact ih hr
  | _ =>
    simp only [List.mem_cons, List.not_mem_nil, or_false] at hr
    rcases hr with rfl | rfl | rfl <;> simp [Effect.isSleep]

/-- Polling comes to yes when the question is answered so. Without that it ends with a stop that is seen, or when
the time is up; it has no end if there is no stop and the time is longer than can pass. -/
theorem ends (h : Polled answer q limit rs x w) :
    (x = .ok true → ⟨.ask q, .ok true⟩ ∈ rs ∧ ⟨.stopped, true⟩ ∉ rs) ∧
      (x = .ok false → ⟨.ask q, .ok true⟩ ∉ rs ∧
        (⟨.stopped, true⟩ ∈ rs ∧ (answer .stopped w).1 = true ∨
          ⟨.stopped, true⟩ ∉ rs ∧ limit.le Wait.reach)) ∧
      ∀ e, x = .error e → e = .endless ∧ ⟨.ask q, .ok true⟩ ∉ rs ∧ ⟨.stopped, true⟩ ∉ rs ∧
        limit.le Wait.reach = false := by
  induction h with
  | yes w => simp
  | stop h => simp [h]
  | timeUp w h => simp [h]
  | endless t w h => simp [h]
  | again t _ ih => simpa using ih

/-- A stop that is not seen after polling was not seen during it. -/
theorem unanswered (h : Polled answer q limit rs (.ok false) w) (hs : (answer .stopped w).1 = false) :
    ⟨.ask q, .ok true⟩ ∉ rs ∧ ⟨.stopped, true⟩ ∉ rs ∧ limit.le Wait.reach := by
  obtain ⟨hno, ⟨-, hs'⟩ | ⟨hstop, hl⟩⟩ := h.ends.2.1 rfl
  · simp [hs] at hs'
  · exact ⟨hno, hstop, hl⟩

end Polled

namespace Wait

open Act Binary64

theorem le_reach_of_le {limit : Binary64} {e : Nat} (he : Passed e) (h : limit.le (.finite false e)) :
    limit.le reach := by
  rw [reach_eq]
  cases limit with
  | nan => simp [le, lt, Binary64.eq] at h
  | infinite s =>
    cases s with
    | true => rfl
    | false => simp [le, lt, Binary64.eq] at h
  | finite s u =>
    rw [finite_le] at h ⊢
    exact h.trans (Int.ofNat_le.2 he.le_reach)

/-- A time that is not up is above what has passed. -/
theorem exists_of_not_le {limit : Binary64} (hl : limit.Representable) {e : Nat}
    (h : ¬ limit.le (.finite false e)) :
    ∃ u, limit = .finite false u ∧ e < u ∧ u < overflow ∧ spacing u ∣ u := by
  obtain ⟨s, u, rfl, hover, hu⟩ := hl
  rw [finite_le, signed_false] at h
  cases s with
  | true =>
    rw [signed_true] at h
    omega
  | false =>
    rw [signed_false] at h
    exact ⟨u, rfl, by omega, hover, hu⟩

theorem le_reach_iff {u : Nat} : (Binary64.finite false u).le reach ↔ u ≤ reachUnits := by
  rw [reach_eq, finite_le, signed_false, signed_false]
  exact Int.ofNat_le

/-- While the limit is not reached, a sleep leads on; up to the reach, to a later time. -/
def Counted (limit : Binary64) : Prop :=
  ∀ e, Passed e → ¬ limit.le (.finite false e) →
    ∃ e', (Binary64.finite false e).add (chunk limit (.finite false e)) = .finite false e' ∧
      Passed e' ∧ (limit.le reach → e < e')

theorem counted_of_representable {limit : Binary64} (hl : limit.Representable) : Counted limit := by
  intro e he hle
  obtain ⟨u, rfl, heu, hover, hu⟩ := exists_of_not_le hl hle
  obtain ⟨e', hadd, he', hgrows⟩ := passed_grown heu hover hu he
  exact ⟨e', hadd, he', fun hr => hgrows (le_reach_iff.1 hr)⟩

/-- Polling that has gone on for some time. -/
theorem pollFrom_runs {q : Request} (hq : AlwaysAnswers answer q) (hstop : StopStays answer) {limit : Binary64}
    (hl : Counted limit) {e : Nat} (he : Passed e) (w : W) :
    ∃ ms x w', (pollFrom (Act.ask q) limit (.finite false e)).Runs answer w ms x w' ∧
      Polled answer q limit (ms.map (·.reply answer)) x w' := by
  obtain ⟨b, hb⟩ := hq w
  have hask := Runs.ask_eq hb
  have hreply := Moment.reply_eq hb
  unfold pollFrom
  cases b with
  | true =>
    refine ⟨_, _, _, hask.bind (.pure true _), ?_⟩
    simpa [hreply] using .yes _
  | false =>
    generalize (answer (.ask q) w).2 = w₁ at hask
    cases hs : (answer .stopped w₁).1 with
    | true =>
      refine ⟨_, _, _, hask.bind ((Runs.stopped_eq hs).bind (.pure false _)), ?_⟩
      simpa [hreply, Moment.reply_eq hs] using .stop (hstop _ _ hs)
    | false =>
      have hlook := Runs.stopped_eq hs
      by_cases hle : limit.le (.finite false e)
      · simp only [hle, ↓reduceIte]
        refine ⟨_, _, _, hask.bind (hlook.bind (.pure false _)), ?_⟩
        simpa [hreply, Moment.reply_eq hs] using .timeUp _ (le_reach_of_le he hle)
      · obtain ⟨e', hadd, he', hgrows⟩ := hl e he hle
        simp only [hle, Bool.false_eq_true, ↓reduceIte, hadd]
        by_cases hroom : room (.finite false e') < room (.finite false e)
        · simp only [hroom, ↓reduceDIte]
          obtain ⟨ms, x, w', hrun, hpolled⟩ :=
            pollFrom_runs hq hstop hl he' (answer (.sleep _) (answer .stopped w₁).2).2
          refine ⟨_, _, _, hask.bind (hlook.bind ((Runs.sleep _ _).bind hrun)), ?_⟩
          simpa [hreply, Moment.reply_eq hs] using .again _ hpolled
        · simp only [hroom, ↓reduceDIte]
          refine ⟨_, _, _, hask.bind (hlook.bind ((Runs.sleep _ _).bind (.throw .endless _))), ?_⟩
          have hfar : limit.le reach = false := Bool.eq_false_iff.2 fun hr => hroom (room_lt he (hgrows hr))
          simpa [hreply, Moment.reply_eq hs] using .endless _ _ hfar
termination_by room (.finite false e)

theorem poll_runs {q : Request} (hq : AlwaysAnswers answer q) (hstop : StopStays answer) {budget : Value}
    {limit : Binary64} (hb : seconds budget = .ok limit) (hl : limit.Representable) (w : W) :
    ∃ ms x w', (poll (Act.ask q) budget).Runs answer w ms x w' ∧
      Polled answer q limit (ms.map (·.reply answer)) x w' := by
  unfold poll
  rw [hb]
  exact pollFrom_runs hq hstop (counted_of_representable hl) passed_zero w

end Wait

end Macros
