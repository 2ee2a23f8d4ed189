import Macros.Proofs.Number.Decimals

/-!
Six significant digits. A number that a decimal of six digits is read as is found again from its own
first six digits: either they are that decimal, or, next to zero, decimals are closer together than
binary numbers are.
-/

namespace Macros

namespace Binary64

/-- A number that some decimal with at most six significant digits is read as. -/
def SixDigits (x : Binary64) : Prop :=
  ∃ (n : Nat) (e : Int), n < 10 ^ 6 ∧ (ofDecimal false n e).eq x = true

theorem rounded_eq_finite {negative : Bool} {q : ℚ} {u : Nat}
    (h : rounded negative q = .finite negative u) : nearest q = u ∧ u < overflow := by
  unfold rounded at h
  split at h
  · nomatch h
  · next ho =>
    obtain ⟨-, rfl⟩ := Binary64.finite.inj h
    exact ⟨rfl, Nat.not_le.1 ho⟩

end Binary64

namespace Decimal

open Binary64

theorem onGrid_ratio (quarters : Nat) (scale : Int) : 0 < (onGrid quarters scale).2 ∧
    4 * (((onGrid quarters scale).1 : ℚ) * tens scale) = quarters * (onGrid quarters scale).2 := by
  have htwo := twoTo_pos (unitBits + 2)
  have hquarter : ((twoTo (unitBits + 2) : Nat) : ℚ) = 4 * (twoTo unitBits : Nat) := by
    rw [cast_twoTo, cast_twoTo, pow_add]
    ring
  unfold onGrid
  split
  · next hs =>
    obtain ⟨k, rfl⟩ := Int.eq_ofNat_of_zero_le hs
    refine ⟨Nat.mul_pos (tenTo_pos _) htwo, ?_⟩
    rw [Int.toNat_natCast, tens_natCast, Nat.cast_mul, Nat.cast_mul, hquarter]
    ring
  · next hs =>
    obtain ⟨k, rfl⟩ : ∃ k : Nat, scale = -k := ⟨(-scale).toNat, by omega⟩
    have hk : ((tenTo k : Nat) : ℚ) ≠ 0 := by exact_mod_cast (tenTo_pos k).ne'
    dsimp only
    refine ⟨htwo, ?_⟩
    rw [neg_neg, Int.toNat_natCast, tens_neg, hquarter, Nat.cast_mul]
    generalize ((twoTo unitBits : Nat) : ℚ) = units
    generalize ((tenTo k : Nat) : ℚ) = power at hk ⊢
    field_simp

theorem significant_scale (n u : Nat) : (significant n u).scale = leading u - n := rfl

/-- The digits count grid steps, up to half a step. -/
theorem significant_bounds (n u : Nat) :
    2 * ((significant n u).digits * tens (significant n u).scale) ≤ 2 * u + tens (significant n u).scale ∧
      2 * u ≤ 2 * ((significant n u).digits * tens (significant n u).scale) +
        tens (significant n u).scale := by
  obtain ⟨hstep, hratio⟩ := onGrid_ratio (4 * u) (leading u - n)
  have hpos := tens_pos (leading u - n)
  simp only [significant]
  generalize onGrid (4 * u) (leading u - n) = g at hstep hratio ⊢
  obtain ⟨a, step⟩ := g
  generalize tens (leading u - n) = t at hratio hpos ⊢
  dsimp only at hstep hratio ⊢
  have hstep' : (0 : ℚ) < step := by exact_mod_cast hstep
  have ha : (a : ℚ) * t = u * step := by
    push_cast at hratio
    linarith
  obtain ⟨h1, h2⟩ := roundDiv_bounds a hstep
  have h1' : 2 * ((roundDiv a step : ℚ) * step) ≤ 2 * a + step := by exact_mod_cast h1
  have h2' : 2 * (a : ℚ) ≤ 2 * (roundDiv a step * step) + step := by exact_mod_cast h2
  constructor
  · refine le_of_mul_le_mul_right ?_ hstep'
    calc 2 * ((roundDiv a step : ℚ) * t) * step = 2 * (roundDiv a step * step) * t := by ring
      _ ≤ (2 * a + step) * t := mul_le_mul_of_nonneg_right h1' hpos.le
      _ = (2 * u + t) * step := by rw [add_mul, mul_assoc, ha]; ring
  · refine le_of_mul_le_mul_right ?_ hstep'
    calc 2 * (u : ℚ) * step = 2 * a * t := by rw [mul_assoc, ← ha]; ring
      _ ≤ (2 * (roundDiv a step * step) + step) * t := mul_le_mul_of_nonneg_right h2' hpos.le
      _ = (2 * (roundDiv a step * t) + t) * step := by ring

variable {u : Nat}

/-- Steps that are less than one step further are no further. -/
theorem steps_le {a b : Nat} {t : ℚ} (ht : 0 < t) (h : a * t < b * t + t) : a ≤ b := by
  have hlt : (a : ℚ) < ((b + 1 : Nat) : ℚ) := by
    refine lt_of_mul_lt_mul_right ?_ ht.le
    push_cast
    linarith
  exact Nat.lt_succ_iff.1 (by exact_mod_cast hlt)

/-- The digits are the count of steps that is less than half a step away. -/
theorem significant_digits {n c : Nat}
    (hl : 2 * (c * tens (significant n u).scale) < 2 * u + tens (significant n u).scale)
    (hr : 2 * u < 2 * (c * tens (significant n u).scale) + tens (significant n u).scale) :
    (significant n u).digits = c := by
  obtain ⟨h1, h2⟩ := significant_bounds n u
  have hpos := tens_pos (significant n u).scale
  exact Nat.le_antisymm (steps_le hpos (by linarith)) (steps_le hpos (by linarith))

/-- The first six digits begin at the leading exponent. -/
theorem tens_leading : tens (leading u) = 10 ^ 5 * tens (significant 5 u).scale := by
  rw [significant_scale, ← tens_add]
  congr 1
  push_cast
  ring

theorem tens_leading_succ : tens (leading u + 1) = 10 ^ 6 * tens (significant 5 u).scale := by
  rw [significant_scale, ← tens_add]
  congr 1
  push_cast
  ring

/-- Away from zero, where a grid step of six digits is more than a unit, rounding to a binary number is
off by less than half a step. -/
theorem near_of_coarse {D : ℚ} (hD : 0 ≤ D) (hnear : nearest D = u)
    (hupper : (u : ℚ) < 10 ^ 6 * tens (significant 5 u).scale) (hcoarse : 1 < tens (significant 5 u).scale) :
    2 * u < 2 * D + tens (significant 5 u).scale ∧ 2 * D < 2 * u + tens (significant 5 u).scale := by
  obtain ⟨h1, h2⟩ := nearest_bounds hD
  rw [hnear] at h1 h2
  have hspacing : (spacing ⌊D⌋₊ : ℚ) < tens (significant 5 u).scale := by
    rcases spacing_le ⌊D⌋₊ with hs | hs
    · exact lt_of_le_of_lt (by exact_mod_cast hs) hcoarse
    · have hs' : (spacing ⌊D⌋₊ : ℚ) * 2 ^ 52 ≤ D :=
        calc (spacing ⌊D⌋₊ : ℚ) * 2 ^ 52 = ((spacing ⌊D⌋₊ * twoTo 52 : Nat) : ℚ) := by
              rw [Nat.cast_mul, cast_twoTo]
          _ ≤ ⌊D⌋₊ := by exact_mod_cast hs
          _ ≤ D := Nat.floor_le hD
      linarith
  constructor <;> linarith

/-- The first six digits of a number that a decimal of six digits is read as are read as the number. -/
theorem nearest_significant {n : Nat} {e : Int} (hu : u ≠ 0) (hover : u < overflow) (hn : n < 10 ^ 6)
    (hnear : nearest (n * tens e) = u) :
    nearest ((significant 5 u).digits * tens (significant 5 u).scale) = u := by
  obtain ⟨hlower, hupper⟩ := leading_bounds hu hover
  rw [tens_leading_succ] at hupper
  have hpos := tens_pos (significant 5 u).scale
  obtain ⟨h1, h2⟩ := significant_bounds 5 u
  have hself : nearest (u : ℚ) = u := by rw [← hnear, nearest_nearest]
  rcases lt_trichotomy (tens (significant 5 u).scale) 1 with hfine | hone | hcoarse
  · -- a step is less than a unit
    refine nearest_eq (mul_nonneg (Nat.cast_nonneg _) hpos.le) ?_ (by linarith) (by linarith)
    have hlt : (u : ℚ) < (10 ^ 6 : Nat) := by push_cast; linarith
    exact (Nat.cast_lt.1 hlt).trans (by norm_num [twoTo_eq])
  · rw [hone] at h1 h2
    have hdigits : (significant 5 u).digits = u := by
      rw [mul_one] at h1 h2
      have h1' : 2 * (significant 5 u).digits ≤ 2 * u + 1 := by exact_mod_cast h1
      have h2' : 2 * u ≤ 2 * (significant 5 u).digits + 1 := by exact_mod_cast h2
      omega
    rw [hone, mul_one, hdigits, hself]
  · have hD : 0 ≤ (n : ℚ) * tens e := mul_nonneg (Nat.cast_nonneg _) (tens_pos e).le
    obtain ⟨hl, hr⟩ := near_of_coarse hD hnear hupper hcoarse
    rcases lt_or_ge ((n : ℚ) * tens e) (tens (leading u)) with hlt | hge
    · -- the decimal is below the power of ten that the number is not below
      have hten : ((10 ^ 5 : Nat) : ℚ) * tens (significant 5 u).scale = tens (leading u) := by
        rw [tens_leading]
        norm_num
      have hdigits : (significant 5 u).digits = 10 ^ 5 :=
        significant_digits (by rw [hten]; linarith) (by rw [hten]; linarith)
      rw [hdigits, hten]
      refine Nat.le_antisymm ?_ ?_
      · exact (nearest_mono (tens_pos _).le hlower).trans_eq hself
      · exact hnear.symm.le.trans (nearest_mono hD hlt.le)
    · -- the decimal is on the grid
      have hexp : (significant 5 u).scale ≤ e := by
        by_contra hcon
        have hlt : e + (6 : Nat) ≤ leading u := by
          simp only [significant] at hcon
          push_cast at hcon ⊢
          omega
        have hten := tens_mono hlt
        rw [tens_add] at hten
        have hn' : (n : ℚ) * tens e < 10 ^ 6 * tens e :=
          mul_lt_mul_of_pos_right (by exact_mod_cast hn) (tens_pos e)
        linarith
      obtain ⟨k, hk⟩ := Int.le.dest hexp
      have hgrid : (n : ℚ) * tens e = ((n * 10 ^ k : Nat) : ℚ) * tens (significant 5 u).scale := by
        rw [← hk, tens_add]
        push_cast
        ring
      rw [hgrid] at hl hr hnear
      rw [significant_digits hr hl, hnear]

end Decimal

end Macros
