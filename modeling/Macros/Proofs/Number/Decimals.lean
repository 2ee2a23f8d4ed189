import Macros.Number.Decimal
import Macros.Proofs.Number.Rounding
import Mathlib.Algebra.Order.Field.Power

/-!
Decimal numbers as numbers of units. What a decimal is read as depends only on the number that it
stands for, however its digits and its exponent are chosen: it is that number, rounded. A binary number is
between two powers of ten, of which the writing of numbers finds the lower one.
-/

namespace Macros

namespace Binary64

theorem cast_twoTo (n : Nat) : ((twoTo n : Nat) : ℚ) = 2 ^ n := by
  rw [twoTo_eq, Nat.cast_pow, Nat.cast_ofNat]

theorem tenTo_eq (n : Nat) : tenTo n = 10 ^ n := rfl

theorem cast_tenTo (n : Nat) : ((tenTo n : Nat) : ℚ) = 10 ^ n := by
  rw [tenTo_eq, Nat.cast_pow, Nat.cast_ofNat]

/-- How many units ten to a power is. -/
def tens (e : Int) : ℚ := 10 ^ e * 2 ^ unitBits

theorem tens_pos (e : Int) : 0 < tens e := by
  unfold tens
  positivity

theorem tens_mono {e f : Int} (h : e ≤ f) : tens e ≤ tens f :=
  mul_le_mul_of_nonneg_right (zpow_le_zpow_right₀ (by norm_num) h) (by positivity)

theorem tens_add (e : Int) (k : Nat) : tens (e + k) = 10 ^ k * tens e := by
  rw [tens, tens, zpow_add₀ (by norm_num), zpow_natCast]
  ring

theorem tens_natCast (k : Nat) : tens k = ((tenTo k * twoTo unitBits : Nat) : ℚ) := by
  rw [tens, zpow_natCast, Nat.cast_mul, cast_tenTo, cast_twoTo]

theorem tens_neg (k : Nat) : tens (-k) = (twoTo unitBits : ℚ) / (tenTo k : Nat) := by
  rw [tens, zpow_neg, zpow_natCast, cast_tenTo, cast_twoTo, mul_comm, ← div_eq_mul_inv]

/-- The binary number that a number of units is rounded to. -/
def rounded (negative : Bool) (q : ℚ) : Binary64 :=
  if overflow ≤ nearest q then .infinite negative else .finite negative (nearest q)

theorem ofRatio_eq (negative : Bool) (n : Nat) {d : Nat} (hd : 0 < d) :
    ofRatio negative n d = rounded negative (n / d) := by
  simp only [ofRatio, rounded, nearest_div n hd]

theorem tenTo_pos (n : Nat) : 0 < tenTo n := Nat.pow_pos (by decide)

/-- Ten has more than three binary digits. -/
theorem twoTo_lt_tenTo {m n : Nat} (h : m < 3 * n) : twoTo m < tenTo n := by
  calc twoTo m < twoTo (3 * n) := twoTo_lt h
    _ = 8 ^ n := by rw [twoTo_eq, Nat.pow_mul]
    _ ≤ tenTo n := by
      rw [tenTo_eq]
      exact Nat.pow_le_pow_left (by decide) n

/-- Powers of two are numbers, however far out. -/
theorem spacing_twoTo (n : Nat) : spacing (twoTo n) ∣ twoTo n := by
  by_cases hn : n < 53
  · rw [spacing_small (twoTo_lt hn)]
    exact one_dvd _
  · have hlog : (twoTo n).log2 = n := by rw [twoTo_eq, Nat.log2_two_pow]
    have hle : twoTo 53 ≤ twoTo n := Nat.pow_le_pow_right Nat.two_pos (Nat.not_lt.1 hn)
    rw [spacing_eq hle, hlog, twoTo_eq, twoTo_eq]
    exact pow_dvd_pow 2 (Nat.sub_le n 52)

theorem nearest_twoTo (n : Nat) : nearest (twoTo n : Nat) = twoTo n :=
  nearest_natCast (spacing_twoTo n)

/-- Below a power of two that is a number, rounding gives a number. -/
theorem rounded_below {negative : Bool} {q : ℚ} {n : Nat} (h : 0 ≤ q) (hq : q ≤ (twoTo n : Nat))
    (hn : n < 2098) : rounded negative q = .finite negative (nearest q) := by
  have hnear := nearest_mono h hq
  rw [nearest_twoTo] at hnear
  exact if_neg (Nat.not_le.2 (hnear.trans_lt (twoTo_lt hn)))

theorem rounded_large {negative : Bool} {q : ℚ} (h : tens 401 ≤ q) :
    rounded negative q = .infinite negative := by
  have hover : (overflow : ℚ) ≤ tens 401 := by
    have h401 : tens 401 = ((tenTo 401 * twoTo unitBits : Nat) : ℚ) := tens_natCast 401
    have hpowers : overflow ≤ tenTo 401 * twoTo unitBits := by
      calc overflow = twoTo 1024 * twoTo unitBits := twoTo_add 1024 unitBits
        _ ≤ tenTo 401 * twoTo unitBits :=
            Nat.mul_le_mul_right _ (twoTo_lt_tenTo (by decide)).le
    rw [h401]
    exact_mod_cast hpowers
  have hnear := nearest_mono (Nat.cast_nonneg _) (hover.trans h)
  rw [overflow, nearest_twoTo] at hnear
  exact if_pos hnear

theorem rounded_tiny {negative : Bool} {q : ℚ} (h : 0 ≤ q) (h' : q < 1 / 2) :
    rounded negative q = .finite negative 0 := by
  have hnear : nearest q = 0 := nearest_eq h (twoTo_pos 53) (by push_cast; linarith) (by push_cast; linarith)
  rw [rounded, hnear]
  exact if_neg (Nat.not_le.2 (twoTo_pos 2098))

/-- Far below the least positive number there is nothing. -/
theorem tiny_of_exponent {digits : Nat} {e : Int} (h : e < -(400 + digits.log2 : Int)) :
    digits * tens e < 1 / 2 := by
  have hdigits : (digits : ℚ) ≤ 2 ^ (digits.log2 + 1) := by
    exact_mod_cast Nat.lt_log2_self.le
  have htens : tens e ≤ 2 ^ unitBits / 10 ^ (401 + digits.log2) := by
    refine (tens_mono (f := -((401 + digits.log2 : Nat) : Int)) (by push_cast; omega)).trans_eq ?_
    rw [tens_neg, cast_tenTo, cast_twoTo]
  have hpowers : (2 : ℚ) ^ (digits.log2 + 1) * 2 ^ unitBits * 2 < 10 ^ (401 + digits.log2) := by
    calc (2 : ℚ) ^ (digits.log2 + 1) * 2 ^ unitBits * 2
        = 2 ^ digits.log2 * (twoTo (unitBits + 2) : Nat) := by rw [cast_twoTo]; ring
      _ < 2 ^ digits.log2 * (tenTo 401 : Nat) := by
          gcongr
          exact twoTo_lt_tenTo (by decide)
      _ ≤ 10 ^ digits.log2 * (tenTo 401 : Nat) := by
          gcongr
          norm_num
      _ = 10 ^ (401 + digits.log2) := by rw [cast_tenTo, pow_add, mul_comm]
  calc digits * tens e ≤ 2 ^ (digits.log2 + 1) * (2 ^ unitBits / 10 ^ (401 + digits.log2)) :=
        mul_le_mul hdigits htens (tens_pos e).le (by positivity)
    _ = 2 ^ (digits.log2 + 1) * 2 ^ unitBits / 10 ^ (401 + digits.log2) := (mul_div_assoc _ _ _).symm
    _ < 1 / 2 := by
      rw [div_lt_div_iff₀ (by positivity) (by norm_num), one_mul]
      exact hpowers

/-- A decimal is read as the number that it stands for, rounded; the powers that are not computed would
make no difference. -/
theorem ofDecimal_eq (negative : Bool) (digits : Nat) (e : Int) :
    ofDecimal negative digits e = rounded negative (digits * tens e) := by
  have hpos := tens_pos e
  unfold ofDecimal
  split
  · next hd =>
    rw [hd, Nat.cast_zero, zero_mul, rounded_tiny le_rfl (by norm_num)]
  · next hd =>
    have hone : (1 : ℚ) ≤ digits := by exact_mod_cast Nat.one_le_iff_ne_zero.2 hd
    split
    · refine (rounded_large ?_).symm
      calc tens 401 ≤ tens e := tens_mono (by omega)
        _ = 1 * tens e := (one_mul _).symm
        _ ≤ digits * tens e := mul_le_mul_of_nonneg_right hone hpos.le
    · split
      · next htiny => exact (rounded_tiny (by positivity) (tiny_of_exponent htiny)).symm
      · split
        · next he =>
          obtain ⟨k, rfl⟩ := Int.eq_ofNat_of_zero_le he
          rw [ofRatio_eq _ _ Nat.one_pos, Int.toNat_natCast, tens_natCast]
          push_cast
          ring_nf
        · next he =>
          obtain ⟨k, rfl⟩ : ∃ k : Nat, e = -k := ⟨(-e).toNat, by omega⟩
          rw [neg_neg, Int.toNat_natCast, ofRatio_eq _ _ (tenTo_pos k), tens_neg]
          push_cast
          ring_nf

end Binary64

namespace Decimal

open Binary64

theorem powerLe_iff {e : Int} {u : Nat} : powerLe e u ↔ tens e ≤ u := by
  unfold powerLe
  split
  · next he =>
    obtain ⟨k, rfl⟩ := Int.eq_ofNat_of_zero_le he
    rw [decide_eq_true_eq, Int.toNat_natCast, tens_natCast, Nat.cast_le]
  · next he =>
    obtain ⟨k, rfl⟩ : ∃ k : Nat, e = -k := ⟨(-e).toNat, by omega⟩
    have hk : (0 : ℚ) < (tenTo k : Nat) := by exact_mod_cast tenTo_pos k
    rw [decide_eq_true_eq, neg_neg, Int.toNat_natCast, tens_neg, div_le_iff₀ hk]
    exact_mod_cast Iff.rfl

theorem powerLe_mono {e : Int} {u v : Nat} (h : u ≤ v) (hu : powerLe e u) : powerLe e v :=
  powerLe_iff.2 ((powerLe_iff.1 hu).trans (Nat.cast_le.2 h))

/-- The first `k` for which the leading exponent of `2 ^ k` units is guessed to be `i - 324`. -/
def firstGuess (i : Nat) : Nat := (i * 100000 - 69378 + 30102) / 30103

/-- The guess of the leading exponent of `2 ^ k` units is off by at most one. -/
theorem guess_bounds {k : Nat} (h : k < 2098) :
    powerLe (((k : Int) - unitBits) * 30103 / 100000 - 1) (twoTo k) = true ∧
      powerLe (((k : Int) - unitBits) * 30103 / 100000 + 2) (twoTo (k + 1) - 1) = false := by
  -- It is enough to look at the first and the last power of each guess.
  have hall : (List.range 632).all fun (i : Nat) =>
      powerLe ((i : Int) - 325) (twoTo (firstGuess i)) &&
        !powerLe ((i : Int) - 322) (twoTo (firstGuess (i + 1)) - 1) := by
    decide +kernel
  obtain ⟨i, hi⟩ : ∃ i : Nat, ((k : Int) - unitBits) * 30103 / 100000 = i - 324 :=
    ⟨(((k : Int) - unitBits) * 30103 / 100000 + 324).toNat, by unfold unitBits; omega⟩
  have hrange : i < 632 ∧ firstGuess i ≤ k ∧ k + 1 ≤ firstGuess (i + 1) := by
    unfold unitBits at hi
    unfold firstGuess
    omega
  have hlow : twoTo (firstGuess i) ≤ twoTo k := Nat.pow_le_pow_right Nat.two_pos hrange.2.1
  have hhigh : twoTo (k + 1) ≤ twoTo (firstGuess (i + 1)) := Nat.pow_le_pow_right Nat.two_pos hrange.2.2
  have hi' := List.all_eq_true.1 hall i (List.mem_range.2 hrange.1)
  rw [Bool.and_eq_true, Bool.not_eq_true', ← Bool.not_eq_true] at hi'
  rw [hi, show (i : Int) - 324 - 1 = i - 325 by omega, show (i : Int) - 324 + 2 = i - 322 by omega,
    ← Bool.not_eq_true]
  exact ⟨powerLe_mono hlow hi'.1, mt (powerLe_mono (Nat.sub_le_sub_right hhigh 1)) hi'.2⟩

theorem leading_bounds {u : Nat} (hu : u ≠ 0) (h : u < overflow) :
    tens (leading u) ≤ u ∧ u < tens (leading u + 1) := by
  have hlt : ∀ k, u < twoTo k → u.log2 < k := fun _ => (Nat.log2_lt hu).2
  have hlog : u.log2 < 2098 := hlt _ h
  obtain ⟨hlow, hhigh⟩ := guess_bounds hlog
  have hup : u ≤ twoTo (u.log2 + 1) - 1 := Nat.le_sub_one_of_lt Nat.lt_log2_self
  have hlow' := powerLe_iff.1 hlow
  rw [Bool.eq_false_iff, ne_eq, powerLe_iff, not_le] at hhigh
  unfold leading
  dsimp only
  generalize ((u.log2 : Int) - unitBits) * 30103 / 100000 = e at hlow' hhigh ⊢
  have hlow'' : tens (e - 1) ≤ u := hlow'.trans (by exact_mod_cast Nat.log2_self_le hu)
  have hhigh' : (u : ℚ) < tens (e + 2) := lt_of_le_of_lt (by exact_mod_cast hup) hhigh
  split
  · next he =>
    rw [show e + 1 + 1 = e + 2 by ring]
    exact ⟨powerLe_iff.1 he, hhigh'⟩
  · next he =>
    rw [powerLe_iff, not_le] at he
    split
    · next he' => exact ⟨powerLe_iff.1 he', he⟩
    · next he' =>
      rw [powerLe_iff, not_le] at he'
      rw [sub_add_cancel]
      exact ⟨hlow'', he'⟩

end Decimal

end Macros
