import Macros.Proofs.Execution.Retry
import Macros.Proofs.Grammar.Times

/-!
What the times that a text may give are good for. Every one that is accepted is in order with the others, unless it
is no number; and a question that is never answered with yes is given up once the limit is reached, which is a
matter of the limit alone.
-/

namespace Macros

namespace Binary64

/-- Numbers are in order, one way or the other. -/
theorem le_iff_not_lt {x y : Binary64} (hx : x ≠ .nan) (hy : y ≠ .nan) : x.le y = true ↔ y.lt x = false := by
  cases x with
  | nan => exact absurd rfl hx
  | infinite s =>
    cases y with
    | nan => exact absurd rfl hy
    | infinite t => cases s <;> cases t <;> simp [le, lt, Binary64.eq]
    | finite t b => cases s <;> simp [le, lt, Binary64.eq]
  | finite s a =>
    cases y with
    | nan => exact absurd rfl hy
    | infinite t => cases t <;> simp [le, lt, Binary64.eq]
    | finite t b =>
      rw [finite_le, lt, decide_eq_false_iff_not]
      omega

theorem lt_iff_not_le {x y : Binary64} (hx : x ≠ .nan) (hy : y ≠ .nan) : x.lt y = true ↔ y.le x = false := by
  rw [← Bool.not_eq_true, le_iff_not_lt hy hx, Bool.not_eq_false]

theorem nan_le (x : Binary64) : Binary64.nan.le x = false := by
  cases x <;> rfl

theorem le_nan (x : Binary64) : x.le .nan = false := by
  cases x <;> rfl

theorem lt_nan (x : Binary64) : x.lt .nan = false := by
  cases x <;> rfl

end Binary64

open Binary64

/-- A span that was read is in order just if both of its ends are numbers. -/
theorem Span.ordered_iff {raw : String} {p : Span} (h : Span.read raw = .ok p) :
    (Binary64.zero.le p.low = true ∧ p.low.le p.high = true) ↔ p.low ≠ .nan ∧ p.high ≠ .nan := by
  have hread := Span.ordered_of_read h
  constructor
  · rintro ⟨hlow, hhigh⟩
    constructor
    · intro hn
      rw [hn, le_nan] at hlow
      exact Bool.false_ne_true hlow
    · intro hn
      rw [hn, le_nan] at hhigh
      exact Bool.false_ne_true hhigh
  · rintro ⟨hlow, hhigh⟩
    exact ⟨(le_iff_not_lt (by decide) hlow).2 hread.notNegative, (le_iff_not_lt hlow hhigh).2 hread.ordered⟩

/-- A limit that was read is above zero just if it is a number. -/
theorem ModifierGrammar.maxWait_positive_iff {value : Option String} {x : Binary64}
    (h : readMaxWait value = .ok x) : Binary64.zero.lt x = true ↔ x ≠ .nan := by
  obtain ⟨-, hpos⟩ := readMaxWait_ok h
  constructor
  · rintro hlt rfl
    rw [lt_nan] at hlt
    exact Bool.false_ne_true hlt
  · intro hx
    exact (lt_iff_not_le (by decide) hx).2 hpos

namespace Wait

open Act

/-- A limit that nothing is taken from by waiting is waited for in the longest sleeps. -/
theorem counted_of_chunk {limit : Binary64} (hfar : limit.le reach = false)
    (hc : ∀ e, chunk limit (.finite false e) = Limits.sleepChunk) : Counted limit := by
  intro e he _
  have hgrown := grown_le he.le_reach le_rfl
  refine ⟨roundUnits (e + chunkUnits) 1, ?_, ⟨hgrown, spacing_dvd_roundUnits _ Nat.one_pos⟩, by simp [hfar]⟩
  rw [hc, sleepChunk_eq]
  apply add_whole
  · rw [signed_false, signed_false, Int.natCast_add]
  · have := chunk_pos
    omega
  · exact hgrown.trans_lt reach_lt_overflow

/-- Any limit that a tag can give is counted up to. -/
theorem counted_of_readMaxWait {value : Option String} {x : Binary64}
    (h : ModifierGrammar.readMaxWait value = .ok x) : Counted x := by
  cases x with
  | finite s u =>
    exact counted_of_representable (number?_representable (Execution.number?_of_readMaxWait h) rfl)
  | nan =>
    apply counted_of_chunk
    · exact nan_le _
    · intro e
      rw [chunk, sleepChunk_eq]
      rfl
  | infinite s =>
    cases s with
    | true =>
      obtain ⟨-, hpos⟩ := ModifierGrammar.readMaxWait_ok h
      exact absurd hpos (by decide)
    | false =>
      apply counted_of_chunk
      · rw [reach_eq]
        rfl
      · intro e
        rw [chunk, sleepChunk_eq]
        rfl

variable {W : Type} {answer : (e : Effect) → W → e.Answer × W} {question : Act Bool} {limit : Binary64}

/-- Without a yes and without a stop, polling is given up if the limit can be reached, and has no end if not. -/
theorem pollFrom_unanswered (hq : ∀ w, question.result answer w = .ok false)
    (hs : ∀ w, (answer .stopped w).1 = false) (hl : Counted limit) {e : Nat} (he : Passed e) (w : W) :
    ∃ ms w', (pollFrom question limit (.finite false e)).Runs answer w ms
      (if limit.le reach then .ok false else .error .endless) w' := by
  obtain ⟨ms, x, w₁, hask⟩ := Runs.exists_run answer question w
  obtain rfl : x = .ok false := hask.result_eq.symm.trans (hq w)
  have hlook := Runs.stopped_eq (hs w₁)
  unfold pollFrom
  by_cases hle : limit.le (.finite false e)
  · simp only [hle, ↓reduceIte, le_reach_of_le he hle]
    exact ⟨_, _, hask.bind (hlook.bind (.pure false _))⟩
  · obtain ⟨e', hadd, he', hgrows⟩ := hl e he hle
    simp only [hle, Bool.false_eq_true, ↓reduceIte, hadd]
    by_cases hroom : room (.finite false e') < room (.finite false e)
    · simp only [hroom, ↓reduceDIte]
      obtain ⟨ns, w', hrest⟩ := pollFrom_unanswered hq hs hl he' (answer (.sleep _) (answer .stopped w₁).2).2
      exact ⟨_, _, hask.bind (hlook.bind ((Runs.sleep _ _).bind hrest))⟩
    · simp only [hroom, ↓reduceDIte]
      -- the time waited no longer grows, which happens only to a limit that is out of reach
      have hfar : limit.le reach = false := Bool.eq_false_iff.2 fun hr => hroom (room_lt he (hgrows hr))
      rw [if_neg (by simp [hfar])]
      exact ⟨_, _, hask.bind (hlook.bind ((Runs.sleep _ _).bind (.throw .endless _)))⟩
termination_by room (.finite false e)

theorem poll_unanswered (hq : ∀ w, question.result answer w = .ok false)
    (hs : ∀ w, (answer .stopped w).1 = false) (hl : Counted limit) (w : W) :
    (poll question (.number limit)).result answer w =
      if limit.le reach then .ok false else .error .endless := by
  obtain ⟨ms, w', hrun⟩ := pollFrom_unanswered hq hs hl passed_zero w
  unfold poll
  rw [Execution.seconds_number]
  exact hrun.result_eq

/-- A client that answers no to everything, and no stop. -/
def mute : (e : Effect) → Unit → e.Answer × Unit
  | .ask _, w => (.ok false, w)
  | .condition, w => (.ok "Normal", w)
  | .sleep _, w => ((), w)
  | .stopped, w => (false, w)
  | .draw, w => (.zero, w)
  | .start _, w => (.ok (), w)
  | .log _ _, w => ((), w)

end Wait

/-- The ends of a span that was read are in order, none below zero, just if they are numbers, and so is a limit above
zero. A question that is never answered with yes is given up without a stop just if the limit is at most `2 ^ 49`
seconds. -/
theorem accepted_times_ordered_iff (raw : String) (value : Option String) :
    (∀ p, Span.read raw = .ok p →
      ((Binary64.zero.le p.low = true ∧ p.low.le p.high = true) ↔ p.low ≠ .nan ∧ p.high ≠ .nan)) ∧
    (∀ p, ModifierGrammar.readWait value = .ok p →
      ((Binary64.zero.le p.low = true ∧ p.low.le p.high = true) ↔ p.low ≠ .nan ∧ p.high ≠ .nan)) ∧
    ∀ x, ModifierGrammar.readMaxWait value = .ok x →
      (Binary64.zero.lt x = true ↔ x ≠ .nan) ∧
        ∀ (W : Type) (answer : (e : Effect) → W → e.Answer × W) (question : Act Bool) (w : W),
          (∀ w, question.result answer w = .ok false) → (∀ w, (answer .stopped w).1 = false) →
            (Wait.poll question (.number x)).result answer w =
              if x.le Wait.reach then .ok false else .error .endless := by
  refine ⟨fun p => Span.ordered_iff, ?_, ?_⟩
  · intro p h
    cases value with
    | none => contradiction
    | some raw =>
      change Span.read raw = .ok p at h
      exact Span.ordered_iff h
  · intro x h
    refine ⟨ModifierGrammar.maxWait_positive_iff h, ?_⟩
    intro W answer question w hq hs
    exact Wait.poll_unanswered hq hs (Wait.counted_of_readMaxWait h) w

/-- A span with blanks and a sign, and a limit that runs out. -/
theorem tenth_runs_out : ∃ p x, Span.read " +1_0.5e0 -\t12 " = .ok p ∧ Binary64.zero.le p.low = true ∧
    p.low.le p.high = true ∧ ModifierGrammar.readMaxWait (some " .1") = .ok x ∧ Binary64.zero.lt x = true ∧
    (Wait.poll (Act.ask (.actionConfirmed (.text "Groundwork"))) (.number x)).result Wait.mute () =
      .ok false := by
  obtain ⟨hspans, -, hlimits⟩ := accepted_times_ordered_iff " +1_0.5e0 -\t12 " (some " .1")
  have hspan : Span.read " +1_0.5e0 -\t12 " = .ok ⟨.ofDecimal false 105 (-1), .ofDecimal false 12 0⟩ := by
    decide +kernel
  have hlimit : ModifierGrammar.readMaxWait (some " .1") = .ok (.ofDecimal false 1 (-1)) := by decide +kernel
  obtain ⟨hlow, hhigh⟩ := (hspans _ hspan).2 ⟨by decide +kernel, by decide +kernel⟩
  obtain ⟨hpos, hpoll⟩ := hlimits _ hlimit
  refine ⟨_, _, hspan, hlow, hhigh, hlimit, hpos.2 (by decide +kernel), ?_⟩
  rw [hpoll Unit Wait.mute _ () (fun _ => rfl) (fun _ => rfl), if_pos (by decide +kernel)]

/-- What is no number is accepted as a span and as a limit. With it an action waits for its response without an end,
and so it does with a finite limit that is large enough. -/
theorem nan_accepted : Span.read "nan" = .ok ⟨.nan, .nan⟩ ∧
    ModifierGrammar.readWait (some "5-NaN") = .ok ⟨.ofDecimal false 5 0, .nan⟩ ∧
    ModifierGrammar.readMaxWait (some "nan") = .ok .nan ∧
    Binary64.zero.le .nan = false ∧ (Binary64.ofDecimal false 5 0).le .nan = false ∧
    Binary64.zero.lt .nan = false ∧
    (Wait.poll (Act.ask (.actionConfirmed (.text "Groundwork"))) (.number .nan)).result Wait.mute () =
      .error .endless ∧
    ∃ x, ModifierGrammar.readMaxWait (some "1e300") = .ok x ∧ x.isFinite ∧
      (Wait.poll (Act.ask (.actionConfirmed (.text "Groundwork"))) (.number x)).result Wait.mute () =
        .error .endless := by
  have hnan : ModifierGrammar.readMaxWait (some "nan") = .ok .nan := by decide +kernel
  have hlarge : ModifierGrammar.readMaxWait (some "1e300") = .ok (.ofDecimal false 1 300) := by decide +kernel
  have hendless : ∀ value x, ModifierGrammar.readMaxWait value = .ok x → x.le Wait.reach = false →
      (Wait.poll (Act.ask (.actionConfirmed (.text "Groundwork"))) (.number x)).result Wait.mute () =
        .error .endless := by
    intro value x h hfar
    rw [Wait.poll_unanswered (fun _ => rfl) (fun _ => rfl) (Wait.counted_of_readMaxWait h) (), if_neg (by simp [hfar])]
  exact ⟨by decide +kernel, by decide +kernel, hnan, le_nan _, le_nan _, lt_nan _,
    hendless _ _ hnan (by decide +kernel), _, hlarge, by decide +kernel, hendless _ _ hlarge (by decide +kernel)⟩

end Macros
