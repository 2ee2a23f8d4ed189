import Macros.Number.Binary64
import Mathlib.Algebra.Order.Field.Rat
import Mathlib.Algebra.Order.Floor.Semifield
import Mathlib.Data.Rat.Floor
import Mathlib.Tactic.Linarith
import Mathlib.Tactic.Positivity
import Mathlib.Tactic.Ring
import Mathlib.Tactic.SplitIfs
import Mathlib.Tactic.FieldSimp

/-!
Rounding to binary numbers. An exact number of units is rounded to the nearest count with a significand of
53 bits; rounding keeps the order, leaves such counts as they are, and is off by at most half of
the distance of neighbours.
-/

namespace Macros.Binary64

/-! The nearest integer to a fraction. -/

theorem div_le_roundDiv (n d : Nat) : n / d ≤ roundDiv n d := by
  simp only [roundDiv]
  split_ifs <;> omega

theorem roundDiv_le (n d : Nat) : roundDiv n d ≤ n / d + 1 := by
  simp only [roundDiv]
  split_ifs <;> omega

theorem roundDiv_bounds (n : Nat) {d : Nat} (hd : 0 < d) :
    2 * (roundDiv n d * d) ≤ 2 * n + d ∧ 2 * n ≤ 2 * (roundDiv n d * d) + d := by
  have hn := Nat.div_add_mod' n d
  have hr := Nat.mod_lt n hd
  have hsucc : (n / d + 1) * d = n / d * d + d := Nat.succ_mul _ _
  unfold roundDiv
  dsimp only
  split
  · omega
  · split
    · omega
    · rcases Nat.mod_two_eq_zero_or_one (n / d) with he | he
      · rw [he, Nat.add_zero]
        omega
      · rw [he]
        omega

theorem roundDiv_eq {n d k : Nat} (hl : 2 * (k * d) < 2 * n + d) (hu : 2 * n < 2 * (k * d) + d) :
    roundDiv n d = k := by
  have hd : 0 < d := by omega
  obtain ⟨h1, h2⟩ := roundDiv_bounds n hd
  have hle : ∀ a b : Nat, a * d < b * d + d → a ≤ b := fun a b h =>
    Nat.lt_succ_iff.1 (Nat.lt_of_mul_lt_mul_right (Nat.succ_mul b d ▸ h))
  exact Nat.le_antisymm (hle _ _ (by omega)) (hle _ _ (by omega))

theorem roundDiv_mul (k : Nat) {d : Nat} (hd : 0 < d) : roundDiv (k * d) d = k :=
  roundDiv_eq (by omega) (by omega)

theorem roundDiv_mono {n m : Nat} (d : Nat) (h : n ≤ m) : roundDiv n d ≤ roundDiv m d := by
  rcases Nat.lt_or_eq_of_le (Nat.div_le_div_right (c := d) h) with hlt | heq
  · exact (roundDiv_le n d).trans (Nat.lt_iff_add_one_le.1 hlt |>.trans (div_le_roundDiv m d))
  · have hr : n % d ≤ m % d := by
      have hn := Nat.div_add_mod' n d
      have hm := Nat.div_add_mod' m d
      rw [heq] at hn
      omega
    simp only [roundDiv, heq]
    split_ifs <;> omega

theorem roundDiv_scale (n d : Nat) {c : Nat} (hc : 0 < c) : roundDiv (n * c) (d * c) = roundDiv n d := by
  have hlt : ∀ a b : Nat, a * c < b * c ↔ a < b := fun a b => Nat.mul_lt_mul_right hc
  simp only [roundDiv, Nat.mul_div_mul_right n d hc, Nat.mul_mod_mul_right, ← Nat.mul_assoc, hlt]

/-! The distance of neighbours. -/

theorem twoTo_eq (n : Nat) : twoTo n = 2 ^ n := rfl

theorem twoTo_pos (n : Nat) : 0 < twoTo n := Nat.two_pow_pos n

theorem twoTo_add (m n : Nat) : twoTo (m + n) = twoTo m * twoTo n := Nat.pow_add 2 m n

theorem twoTo_lt {m n : Nat} (h : m < n) : twoTo m < twoTo n := Nat.pow_lt_pow_right Nat.one_lt_two h

theorem spacing_eq {u : Nat} (h : twoTo 53 ≤ u) : spacing u = twoTo (u.log2 - 52) :=
  if_neg (Nat.not_lt.2 h)

theorem spacing_small {u : Nat} (h : u < twoTo 53) : spacing u = 1 := if_pos h

theorem spacing_pos (u : Nat) : 0 < spacing u := by
  unfold spacing
  split
  · exact Nat.one_pos
  · exact twoTo_pos _

theorem log2_mono {u v : Nat} (hu : u ≠ 0) (h : u ≤ v) : u.log2 ≤ v.log2 :=
  (Nat.le_log2 (by omega)).2 ((Nat.log2_self_le hu).trans h)

theorem spacing_dvd {u v : Nat} (h : u ≤ v) : spacing u ∣ spacing v := by
  by_cases hu : u < twoTo 53
  · rw [spacing_small hu]
    exact one_dvd _
  · have hu' := Nat.not_lt.1 hu
    have hpos : u ≠ 0 := by have := twoTo_pos 53; omega
    rw [spacing_eq hu', spacing_eq (hu'.trans h)]
    exact Nat.pow_dvd_pow 2 (Nat.sub_le_sub_right (log2_mono hpos h) 52)

theorem spacing_mono {u v : Nat} (h : u ≤ v) : spacing u ≤ spacing v :=
  Nat.le_of_dvd (spacing_pos v) (spacing_dvd h)

/-- Neighbours are close together, as long as they are not next to zero. -/
theorem spacing_le (u : Nat) : spacing u ≤ 1 ∨ spacing u * twoTo 52 ≤ u := by
  by_cases hu : u < twoTo 53
  · exact .inl (spacing_small hu).le
  · have hu' := Nat.not_lt.1 hu
    have hpos : u ≠ 0 := by have := twoTo_pos 53; omega
    have hlog : 53 ≤ u.log2 := (Nat.le_log2 hpos).2 hu'
    refine .inr ?_
    rw [spacing_eq hu', twoTo_eq, twoTo_eq, ← Nat.pow_add, Nat.sub_add_cancel (by omega)]
    exact Nat.log2_self_le hpos

/-- Where neighbours become more distant, there is a number that is a multiple of both distances. -/
theorem exists_between {u v : Nat} (h : spacing u < spacing v) :
    ∃ p, u < p ∧ p ≤ v ∧ spacing v ∣ p := by
  have hv : twoTo 53 ≤ v := by
    by_contra hv
    rw [spacing_small (Nat.not_le.1 hv)] at h
    have := spacing_pos u
    omega
  have hpos : v ≠ 0 := by have := twoTo_pos 53; omega
  refine ⟨twoTo v.log2, ?_, Nat.log2_self_le hpos, ?_⟩
  · by_contra hle
    have hle' := Nat.not_lt.1 hle
    have hlog : 53 ≤ v.log2 := (Nat.le_log2 hpos).2 hv
    have hu : twoTo 53 ≤ u := (Nat.pow_le_pow_right (by decide) hlog).trans hle'
    have hupos : u ≠ 0 := by have := twoTo_pos 53; omega
    rw [spacing_eq hu, spacing_eq hv] at h
    have hlt := (Nat.pow_lt_pow_iff_right (by decide)).1 h
    have := (Nat.le_log2 hupos).2 hle'
    omega
  · rw [spacing_eq hv]
    exact Nat.pow_dvd_pow 2 (Nat.sub_le _ _)

/-! Rounding of fractions. -/

theorem roundUnits_scale (n d : Nat) {c : Nat} (hc : 0 < c) :
    roundUnits (n * c) (d * c) = roundUnits n d := by
  simp only [roundUnits]
  rw [Nat.mul_div_mul_right n d hc, Nat.mul_right_comm, roundDiv_scale n _ hc]

theorem roundUnits_congr {n d m e : Nat} (hd : 0 < d) (he : 0 < e) (h : n * e = m * d) :
    roundUnits n d = roundUnits m e := by
  rw [← roundUnits_scale n d he, h, Nat.mul_comm d e, roundUnits_scale m e hd]

/-- A number that neighbours are multiples of is not passed. -/
theorem roundUnits_le {n d p : Nat} (hd : 0 < d) (h : n ≤ p * d) (hp : spacing (n / d) ∣ p) :
    roundUnits n d ≤ p := by
  obtain ⟨k, rfl⟩ := hp
  have hs := spacing_pos (n / d)
  simp only [roundUnits]
  rw [Nat.mul_comm _ k]
  refine Nat.mul_le_mul_right _ ?_
  rw [← roundDiv_mul k (Nat.mul_pos hd hs)]
  refine roundDiv_mono _ (h.trans_eq ?_)
  ring

theorem le_roundUnits {n d p : Nat} (hd : 0 < d) (h : p * d ≤ n) (hp : spacing (n / d) ∣ p) :
    p ≤ roundUnits n d := by
  obtain ⟨k, rfl⟩ := hp
  have hs := spacing_pos (n / d)
  simp only [roundUnits]
  rw [Nat.mul_comm _ k]
  refine Nat.mul_le_mul_right _ ?_
  rw [← roundDiv_mul k (Nat.mul_pos hd hs)]
  refine roundDiv_mono _ (le_of_eq_of_le ?_ h)
  ring

theorem roundUnits_mono {n m d : Nat} (hd : 0 < d) (h : n ≤ m) : roundUnits n d ≤ roundUnits m d := by
  have hq : n / d ≤ m / d := Nat.div_le_div_right h
  rcases Nat.lt_or_eq_of_le (spacing_mono hq) with hlt | heq
  · obtain ⟨p, hnp, hpm, hp⟩ := exists_between hlt
    calc roundUnits n d ≤ p :=
          roundUnits_le hd ((Nat.div_lt_iff_lt_mul hd).1 hnp).le ((spacing_dvd hq).trans hp)
      _ ≤ roundUnits m d := le_roundUnits hd ((Nat.le_div_iff_mul_le hd).1 hpm) hp
  · simp only [roundUnits]
    rw [heq]
    exact Nat.mul_le_mul_right _ (roundDiv_mono _ h)

theorem spacing_dvd_roundUnits (n : Nat) {d : Nat} (hd : 0 < d) :
    spacing (roundUnits n d) ∣ roundUnits n d := by
  have hdvd : spacing (n / d) ∣ roundUnits n d := Dvd.intro_left _ rfl
  by_cases hle : spacing (roundUnits n d) ≤ spacing (n / d)
  · refine dvd_trans ?_ hdvd
    rcases Nat.le_total (roundUnits n d) (n / d) with h | h
    · exact spacing_dvd h
    · rw [Nat.le_antisymm hle (spacing_mono h)]
  · -- Rounding has gone up to where neighbours become more distant.
    obtain ⟨p, hnp, hpm, hp⟩ := exists_between (Nat.not_le.1 hle)
    have hspacing : spacing (n / d) ∣ p := (spacing_dvd (hnp.le.trans hpm)).trans hp
    have hle' := roundUnits_le hd ((Nat.div_lt_iff_lt_mul hd).1 hnp).le hspacing
    rwa [← Nat.le_antisymm hle' hpm] at hp

theorem roundUnits_self {u d : Nat} (hd : 0 < d) (h : spacing u ∣ u) : roundUnits (u * d) d = u := by
  have hq : u * d / d = u := Nat.mul_div_cancel u hd
  have hs : spacing (u * d / d) ∣ u := by rwa [hq]
  exact Nat.le_antisymm (roundUnits_le hd le_rfl hs) (le_roundUnits hd le_rfl hs)

/-! Rounding of numbers. -/

/-- The count of units with a significand of 53 bits that is nearest to a number that is not negative. -/
def nearest (q : ℚ) : Nat := roundUnits q.num.toNat q.den

theorem nearest_div (n : Nat) {d : Nat} (hd : 0 < d) : nearest (n / d) = roundUnits n d := by
  refine roundUnits_congr (Rat.den_pos _) hd ?_
  have hnum : ((n : ℚ) / d).num.toNat = ((n : ℚ) / d).num :=
    Int.toNat_of_nonneg (Rat.num_nonneg.2 (by positivity))
  have hq : (((n : ℚ) / d).num : ℚ) / ((n : ℚ) / d).den = n / d := Rat.num_div_den _
  have hden : (((n : ℚ) / d).den : ℚ) ≠ 0 := by exact_mod_cast Rat.den_nz _
  have hd' : (d : ℚ) ≠ 0 := by exact_mod_cast hd.ne'
  rw [div_eq_div_iff hden hd'] at hq
  have hint : ((n : ℚ) / d).num * (d : Int) = n * ((n : ℚ) / d).den := by exact_mod_cast hq
  rw [← hnum] at hint
  exact_mod_cast hint

/-- A number that is not negative is a fraction of natural numbers. -/
theorem exists_fraction {q : ℚ} (hq : 0 ≤ q) : ∃ n d : Nat, 0 < d ∧ q = n / d := by
  refine ⟨q.num.toNat, q.den, q.den_pos, ?_⟩
  have hnum : (q.num.toNat : Int) = q.num := Int.toNat_of_nonneg (Rat.num_nonneg.2 hq)
  rw [show ((q.num.toNat : Nat) : ℚ) = (q.num : ℚ) by exact_mod_cast hnum, Rat.num_div_den]

theorem nearest_mono {p q : ℚ} (hp : 0 ≤ p) (h : p ≤ q) : nearest p ≤ nearest q := by
  obtain ⟨n, d, hd, rfl⟩ := exists_fraction hp
  obtain ⟨m, e, he, rfl⟩ := exists_fraction (hp.trans h)
  have hd' : (0 : ℚ) < d := by exact_mod_cast hd
  have he' : (0 : ℚ) < e := by exact_mod_cast he
  have hle : n * e ≤ m * d := by
    rw [div_le_div_iff₀ hd' he'] at h
    exact_mod_cast h
  rw [nearest_div n hd, nearest_div m he, ← roundUnits_scale n d he, ← roundUnits_scale m e hd,
    Nat.mul_comm e d]
  exact roundUnits_mono (Nat.mul_pos hd he) hle

theorem nearest_natCast {u : Nat} (h : spacing u ∣ u) : nearest u = u := by
  have hdiv := nearest_div u Nat.one_pos
  rw [Nat.cast_one, div_one] at hdiv
  have hself := roundUnits_self Nat.one_pos h
  rw [Nat.mul_one] at hself
  rw [hdiv, hself]

theorem spacing_dvd_nearest (q : ℚ) : spacing (nearest q) ∣ nearest q :=
  spacing_dvd_roundUnits _ q.den_pos

theorem nearest_nearest (q : ℚ) : nearest (nearest q) = nearest q :=
  nearest_natCast (spacing_dvd_nearest q)

/-- Rounding is off by at most half of the distance of neighbours. -/
theorem nearest_bounds {q : ℚ} (hq : 0 ≤ q) :
    2 * (nearest q : ℚ) ≤ 2 * q + spacing ⌊q⌋₊ ∧ 2 * q ≤ 2 * (nearest q : ℚ) + spacing ⌊q⌋₊ := by
  obtain ⟨n, d, hd, rfl⟩ := exists_fraction hq
  have hd' : (0 : ℚ) < d := by exact_mod_cast hd
  rw [nearest_div n hd, Nat.floor_div_eq_div]
  obtain ⟨h1, h2⟩ := roundDiv_bounds n (Nat.mul_pos hd (spacing_pos (n / d)))
  have hround : roundDiv n (d * spacing (n / d)) * (d * spacing (n / d)) = roundUnits n d * d := by
    rw [roundUnits]
    ring
  rw [hround] at h1 h2
  have hn : (n : ℚ) = n / d * d := (div_mul_cancel₀ _ hd'.ne').symm
  constructor
  · refine le_of_mul_le_mul_right ?_ hd'
    calc 2 * (roundUnits n d : ℚ) * d = ((2 * (roundUnits n d * d) : Nat) : ℚ) := by push_cast; ring
      _ ≤ ((2 * n + d * spacing (n / d) : Nat) : ℚ) := by exact_mod_cast h1
      _ = (2 * (n / d) + spacing (n / d)) * d := by push_cast; rw [hn]; field_simp
  · refine le_of_mul_le_mul_right ?_ hd'
    calc 2 * ((n : ℚ) / d) * d = ((2 * n : Nat) : ℚ) := by push_cast; field_simp
      _ ≤ ((2 * (roundUnits n d * d) + d * spacing (n / d) : Nat) : ℚ) := by exact_mod_cast h2
      _ = (2 * (roundUnits n d : ℚ) + spacing (n / d)) * d := by push_cast; ring

/-- Among the whole numbers of units that have no gaps, the nearest is the one within half a unit. -/
theorem nearest_eq {q : ℚ} {u : Nat} (hq : 0 ≤ q) (hu : u < twoTo 53) (hl : (u : ℚ) - 1 / 2 < q)
    (hr : q < u + 1 / 2) : nearest q = u := by
  obtain ⟨n, d, hd, rfl⟩ := exists_fraction hq
  have hd' : (0 : ℚ) < d := by exact_mod_cast hd
  rw [lt_div_iff₀ hd'] at hl
  rw [div_lt_iff₀ hd'] at hr
  have h1 : 2 * (u * d) < 2 * n + d := by
    have : (2 * (u * d) : ℚ) < 2 * n + d := by linarith
    exact_mod_cast this
  have h2 : 2 * n < 2 * (u * d) + d := by
    have : (2 * n : ℚ) < 2 * (u * d) + d := by linarith
    exact_mod_cast this
  have hfloor : n / d ≤ u := by
    refine Nat.lt_succ_iff.1 ((Nat.div_lt_iff_lt_mul hd).2 ?_)
    rw [Nat.succ_mul]
    omega
  rw [nearest_div n hd, roundUnits, spacing_small (hfloor.trans_lt hu), Nat.mul_one, Nat.mul_one]
  exact roundDiv_eq h1 h2

end Macros.Binary64
