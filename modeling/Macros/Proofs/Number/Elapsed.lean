import Macros.Execution.Wait
import Macros.Proofs.Number.Brief

/-!
The time that a wait has passed. It is a sum of binary numbers, rounded at every sleep. Up to `2 ^ 49` seconds
each sleep makes it larger; there, a sleep is less than half of the distance to the next number, and the sum
stays as it is.
-/

namespace Macros

namespace Wait

open Binary64

/-- The longest sleep, in units. -/
def chunkUnits : Nat := roundUnits (5 * twoTo unitBits) (tenTo 2)

/-- Where the sum of the sleeps stays as it is, in units. -/
def reachUnits : Nat := twoTo 1123

/-- The longest time that a wait can pass: `2 ^ 49` seconds. -/
def reach : Binary64 := .ofInt (2 ^ 49)

/-- A sum of sleeps, in units. -/
structure Passed (e : Nat) : Prop where
  le_reach : e ≤ reachUnits
  spacing_dvd : spacing e ∣ e

end Wait

namespace Binary64

/-- A finite number that rounding leaves as it is. -/
def Representable (x : Binary64) : Prop := ∃ s u, x = .finite s u ∧ u < overflow ∧ spacing u ∣ u

theorem rounded_representable {negative : Bool} {q : ℚ} (h : (rounded negative q).isFinite) :
    (rounded negative q).Representable := by
  unfold rounded at h ⊢
  split at h
  · simp [isFinite] at h
  · next hover =>
    rw [if_neg hover]
    exact ⟨_, _, rfl, Nat.not_le.1 hover, spacing_dvd_nearest q⟩

theorem ofDecimal_representable {negative : Bool} {digits : Nat} {e : Int}
    (h : (ofDecimal negative digits e).isFinite) : (ofDecimal negative digits e).Representable := by
  rw [ofDecimal_eq] at h ⊢
  exact rounded_representable h

theorem ofInt_representable {n : Int} (h : (ofInt n).isFinite) : (ofInt n).Representable := by
  rw [ofInt, ofRatio_eq _ _ Nat.one_pos] at h ⊢
  exact rounded_representable h

/-- A finite number that was read. -/
theorem number?_representable {s : String} {x : Binary64} (h : Numeral.number? s = some x)
    (hx : x.isFinite) : x.Representable := by
  unfold Numeral.number? at h
  dsimp only at h
  split at h
  · obtain rfl := Option.some.inj h
    simp [isFinite] at hx
  · split at h
    · obtain rfl := Option.some.inj h
      simp [isFinite] at hx
    · obtain ⟨n, e, rfl⟩ := Numeral.unsigned?_some h
      exact ofDecimal_representable hx

@[simp] theorem signed_false (u : Nat) : signed false u = u := rfl

@[simp] theorem signed_true (u : Nat) : signed true u = -u := rfl

theorem finite_le {s t : Bool} {a b : Nat} : (finite s a).le (finite t b) ↔ signed s a ≤ signed t b := by
  simp only [le, lt, Binary64.eq, Bool.or_eq_true, decide_eq_true_eq]
  omega

/-! Neighbours. -/

theorem roundUnits_whole {u : Nat} (h : spacing u ∣ u) : roundUnits u 1 = u := by
  have hself := roundUnits_self Nat.one_pos h
  rwa [Nat.mul_one] at hself

theorem le_roundUnits_whole (n : Nat) : 2 * n ≤ 2 * roundUnits n 1 + spacing n := by
  have hbounds := (roundDiv_bounds n (spacing_pos n)).2
  rwa [roundUnits, Nat.div_one, Nat.one_mul]

theorem spacing_spacing (u : Nat) : spacing (spacing u) ∣ spacing u := by
  by_cases hu : u < twoTo 53
  · rw [spacing_small hu, spacing_small (by decide)]
  · have hpow : spacing u = 2 ^ (u.log2 - 52) := spacing_eq (Nat.not_lt.1 hu)
    by_cases hs : spacing u < twoTo 53
    · rw [spacing_small hs]
      exact one_dvd _
    · rw [spacing_eq (Nat.not_lt.1 hs), hpow, Nat.log2_two_pow, twoTo_eq]
      exact Nat.pow_dvd_pow 2 (Nat.sub_le _ _)

/-- The next number is one distance further. -/
theorem spacing_dvd_next {u : Nat} (h : spacing u ∣ u) : spacing (u + spacing u) ∣ u + spacing u := by
  rcases Nat.lt_or_eq_of_le (spacing_mono (Nat.le_add_right u (spacing u))) with hlt | heq
  · obtain ⟨p, hup, hp, hdvd⟩ := exists_between hlt
    have hstep : spacing u ∣ p - u := Nat.dvd_sub ((spacing_dvd (Nat.le_add_right u _)).trans hdvd) h
    have hle := Nat.le_of_dvd (by omega) hstep
    obtain rfl : p = u + spacing u := by omega
    exact hdvd
  · rw [← heq]
    exact Nat.dvd_add h (dvd_refl _)

/-! Sums of numbers that are not negative. -/

theorem ofRatio_whole {n : Nat} (h : roundUnits n 1 < overflow) :
    ofRatio false n 1 = .finite false (roundUnits n 1) := by
  unfold ofRatio
  exact if_neg (Nat.not_le.2 h)

/-- A sum that is above zero, and not too large. -/
theorem add_whole {s : Bool} {a b n : Nat} (hz : signed false a + signed s b = n) (hn : 0 < n)
    (hover : roundUnits n 1 < overflow) :
    (finite false a).add (.finite s b) = .finite false (roundUnits n 1) := by
  have hne : (n : Int) ≠ 0 := by omega
  have hneg : decide ((n : Int) < 0) = false := decide_eq_false (by omega)
  simp only [add, hz, if_neg hne, hneg, Int.natAbs_natCast]
  exact ofRatio_whole hover

theorem min_finite (a b : Nat) :
    (finite false a).min (.finite false b) = .finite false (Min.min a b) := by
  have hlt : (finite false b).lt (.finite false a) = decide (b < a) := decide_eq_decide.2 Int.ofNat_lt
  rw [min, hlt]
  split
  · next h => rw [Nat.min_eq_right (by simpa using Nat.le_of_lt (of_decide_eq_true h))]
  · next h => rw [Nat.min_eq_left (by simpa using h)]

end Binary64

namespace Wait

open Binary64

theorem sleepChunk_eq : Limits.sleepChunk = .finite false chunkUnits := by
  have hunits : ((5 : Nat) : ℚ) * tens (-2) = ((5 * twoTo unitBits : Nat) : ℚ) / (tenTo 2 : Nat) := by
    rw [Nat.cast_mul, mul_div_assoc]
    exact congrArg _ (tens_neg 2)
  have hbelow : ((5 * twoTo unitBits : Nat) : ℚ) / (tenTo 2 : Nat) ≤ (twoTo unitBits : Nat) := by
    rw [div_le_iff₀ (by exact_mod_cast tenTo_pos 2), mul_comm]
    exact_mod_cast Nat.mul_le_mul_left (twoTo unitBits) (by decide : 5 ≤ tenTo 2)
  have hnonneg : (0 : ℚ) ≤ ((5 * twoTo unitBits : Nat) : ℚ) / (tenTo 2 : Nat) :=
    div_nonneg (Nat.cast_nonneg _) (Nat.cast_nonneg _)
  rw [Limits.sleepChunk, ofDecimal_eq, hunits, rounded_below hnonneg hbelow (by decide),
    nearest_div _ (tenTo_pos 2)]
  rfl

theorem reach_lt_overflow : reachUnits < overflow := twoTo_lt (by decide)

theorem reach_eq : reach = .finite false reachUnits := by
  have hnegative : decide ((2 : Int) ^ 49 < 0) = false := by decide
  have hseconds : ((2 : Int) ^ 49).natAbs = twoTo 49 := Int.natAbs_pow 2 49
  have hunits : reachUnits = twoTo 49 * twoTo unitBits := twoTo_add 49 unitBits
  have hself : roundUnits reachUnits 1 = reachUnits := roundUnits_whole (spacing_twoTo _)
  rw [reach, ofInt, hnegative, hseconds, ← hunits, ofRatio_whole (hself.trans_lt reach_lt_overflow), hself]

/-- At the reach the longest sleep is lost in rounding; below, it is not. -/
theorem chunk_at_reach : roundUnits (reachUnits + chunkUnits) 1 = reachUnits ∧
    spacing (reachUnits - 1) < 2 * chunkUnits := by
  decide +kernel

theorem chunk_pos : 0 < chunkUnits := by
  have := chunk_at_reach.2
  omega

/-- The sum does not get further. -/
theorem grown_le {e c : Nat} (he : e ≤ reachUnits) (hc : c ≤ chunkUnits) :
    roundUnits (e + c) 1 ≤ reachUnits := by
  rw [← chunk_at_reach.1]
  exact roundUnits_mono Nat.one_pos (Nat.add_le_add he hc)

theorem lt_grown_chunk {e : Nat} (he : e < reachUnits) : e < roundUnits (e + chunkUnits) 1 := by
  rcases Nat.lt_or_ge (e + chunkUnits) reachUnits with hlt | hge
  · have hspacing : spacing (e + chunkUnits) ≤ spacing (reachUnits - 1) := spacing_mono (by omega)
    have hhalf := chunk_at_reach.2
    have hbound := le_roundUnits_whole (e + chunkUnits)
    omega
  · calc e < reachUnits := he
      _ = roundUnits reachUnits 1 := (roundUnits_whole (spacing_twoTo _)).symm
      _ ≤ roundUnits (e + chunkUnits) 1 := roundUnits_mono Nat.one_pos hge

/-- What is left to wait is no less than the distance to the next number. -/
theorem spacing_le_rest {e u : Nat} (h : e < u) (he : spacing e ∣ e) (hu : spacing u ∣ u) :
    spacing e ≤ roundUnits (u - e) 1 := by
  have hgap : spacing e ≤ u - e :=
    Nat.le_of_dvd (by omega) (Nat.dvd_sub ((spacing_dvd h.le).trans hu) he)
  rw [← roundUnits_whole (spacing_spacing e)]
  exact roundUnits_mono Nat.one_pos hgap

theorem lt_grown_rest {e u : Nat} (h : e < u) (he : spacing e ∣ e) (hu : spacing u ∣ u) :
    e < roundUnits (e + roundUnits (u - e) 1) 1 := by
  calc e < e + spacing e := Nat.lt_add_of_pos_right (spacing_pos e)
    _ = roundUnits (e + spacing e) 1 := (roundUnits_whole (spacing_dvd_next he)).symm
    _ ≤ roundUnits (e + roundUnits (u - e) 1) 1 :=
      roundUnits_mono Nat.one_pos (Nat.add_le_add_left (spacing_le_rest h he hu) e)

theorem passed_zero : Passed 0 := ⟨Nat.zero_le _, dvd_zero _⟩

theorem chunk_finite {u e : Nat} (h : e < u) (hover : u < overflow) (hu : spacing u ∣ u) :
    chunk (.finite false u) (.finite false e) = .finite false (Min.min chunkUnits (roundUnits (u - e) 1)) := by
  have hle : roundUnits (u - e) 1 ≤ u := by
    calc roundUnits (u - e) 1 ≤ roundUnits u 1 := roundUnits_mono Nat.one_pos (Nat.sub_le u e)
      _ = u := roundUnits_whole hu
  have hz : signed false u + signed true e = (u - e : Nat) := by
    rw [signed_false, signed_true]
    omega
  have hrest : (Binary64.finite false u).sub (.finite false e) = .finite false (roundUnits (u - e) 1) :=
    add_whole hz (by omega) (hle.trans_lt hover)
  rw [chunk, hrest, sleepChunk_eq, min_finite]

/-- After a sleep more time has passed, unless the wait is for longer than can pass. -/
theorem passed_grown {u e : Nat} (h : e < u) (hover : u < overflow) (hu : spacing u ∣ u) (he : Passed e) :
    ∃ e', (Binary64.finite false e).add (chunk (.finite false u) (.finite false e)) = .finite false e' ∧
      Passed e' ∧ (u ≤ reachUnits → e < e') := by
  have hrest := (spacing_pos e).trans_le (spacing_le_rest h he.spacing_dvd hu)
  have hle : ∀ c ≤ chunkUnits, roundUnits (e + c) 1 ≤ reachUnits := fun c hc => grown_le he.le_reach hc
  have hadd : ∀ c, 0 < c → c ≤ chunkUnits →
      (Binary64.finite false e).add (.finite false c) = .finite false (roundUnits (e + c) 1) := fun c hc hc' =>
    add_whole (by rw [signed_false, signed_false, Int.natCast_add]) (by omega) ((hle c hc').trans_lt reach_lt_overflow)
  rw [chunk_finite h hover hu]
  rcases Nat.le_total chunkUnits (roundUnits (u - e) 1) with hcase | hcase
  · rw [Nat.min_eq_left hcase]
    exact ⟨_, hadd _ chunk_pos le_rfl, ⟨hle _ le_rfl, spacing_dvd_roundUnits _ Nat.one_pos⟩, fun hur =>
      lt_grown_chunk (by omega)⟩
  · rw [Nat.min_eq_right hcase]
    exact ⟨_, hadd _ hrest hcase, ⟨hle _ hcase, spacing_dvd_roundUnits _ Nat.one_pos⟩, fun _ =>
      lt_grown_rest h he.spacing_dvd hu⟩

theorem room_lt {e e' : Nat} (he : Passed e) (h : e < e') : room (.finite false e') < room (.finite false e) := by
  have hreach := reach_lt_overflow
  have := he.le_reach
  simp only [room]
  omega

end Wait

end Macros
