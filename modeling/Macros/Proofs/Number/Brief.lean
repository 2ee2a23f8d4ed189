import Macros.Proofs.Number.Layout
import Macros.Proofs.Number.SixDigits

/-!
Numbers in brief form are read back just if six digits are enough for them. The brief form of a number from
`0.0001` on has no minus in it; below, the minus of its exponent is.
-/

namespace Macros

namespace Binary64

/-- A finite number is in range. -/
def InRange (x : Binary64) : Prop := ∀ s u, x = .finite s u → u < overflow

theorem rounded_inRange (negative : Bool) (q : ℚ) : (rounded negative q).InRange := by
  rintro s u h
  unfold rounded at h
  split at h
  · nomatch h
  · next ho =>
    obtain ⟨-, rfl⟩ := Binary64.finite.inj h
    exact Nat.not_le.1 ho

/-- Zero, or at least a tenth of a thousandth. -/
def Positional (x : Binary64) : Prop := x.eq .zero = true ∨ (ofDecimal false 1 (-4)).le x = true

/-- A number that is not below zero, and is not zero with a minus. -/
def Nonnegative (x : Binary64) : Prop := x = .infinite false ∨ ∃ u, x = .finite false u

theorem rounded_nonnegative (q : ℚ) : (rounded false q).Nonnegative := by
  unfold rounded
  split
  · exact .inl rfl
  · exact .inr ⟨_, rfl⟩

theorem Nonnegative.eq_iff {x y : Binary64} (hx : x.Nonnegative) (hy : y.Nonnegative) :
    x.eq y = true ↔ x = y := by
  rcases hx with rfl | ⟨u, rfl⟩ <;> rcases hy with rfl | ⟨v, rfl⟩ <;> simp [Binary64.eq, signed]

theorem Nonnegative.not_lt_zero {x : Binary64} (hx : x.Nonnegative) : x.lt .zero = false := by
  rcases hx with rfl | ⟨u, rfl⟩ <;> simp [Binary64.lt, Binary64.zero, signed]

theorem Nonnegative.lt_irrefl {x : Binary64} (hx : x.Nonnegative) : x.lt x = false := by
  rcases hx with rfl | ⟨u, rfl⟩ <;> simp [Binary64.lt]

theorem eq_finite_iff {q : ℚ} {u : Nat} :
    (rounded false q).eq (.finite false u) = true ↔ rounded false q = .finite false u :=
  (rounded_nonnegative q).eq_iff (.inr ⟨u, rfl⟩)

end Binary64

namespace Numeral

open Binary64

theorem unsigned?_some {negative : Bool} {s : List Char} {x : Binary64}
    (h : unsigned? negative s = some x) : ∃ n e, x = .ofDecimal negative n e := by
  have hmap : ∀ (ds : List Nat) (p : List Nat × List Char), (if ds.isEmpty && p.1.isEmpty then none
      else (exponent? p.2).map fun e => ofDecimal negative (ofDigits (ds ++ p.1)) (e - p.1.length)) = some x →
        ∃ n e, x = .ofDecimal negative n e := by
    intro ds p hp
    split at hp
    · contradiction
    · obtain ⟨e, -, rfl⟩ := Option.map_eq_some_iff.1 hp
      exact ⟨_, _, rfl⟩
  unfold unsigned? at h
  dsimp only at h
  split at h <;> exact hmap _ _ h

/-- A number that was read is in range. -/
theorem number?_inRange {s : String} {x : Binary64} (h : number? s = some x) : x.InRange := by
  unfold number? at h
  dsimp only at h
  split at h
  · obtain rfl := Option.some.inj h
    exact fun s u he => nomatch he
  · split at h
    · obtain rfl := Option.some.inj h
      exact fun s u he => nomatch he
    · obtain ⟨n, e, rfl⟩ := unsigned?_some h
      rw [ofDecimal_eq]
      exact rounded_inRange _ _

theorem mem_of_mem_unpad {s : List Char} {c : Char} (h : c ∈ unpad s) : c ∈ s := by
  rw [unpad, List.mem_reverse] at h
  have h' := (List.dropWhile_suffix _).subset h
  exact (List.dropWhile_suffix _).subset (List.mem_reverse.1 h')

/-- A number that was read from a text without a minus is not negative. -/
theorem number?_nonnegative {s : String} {x : Binary64} (hs : '-' ∉ s.toList)
    (h : number? s = some x) : x = .nan ∨ x.Nonnegative := by
  have hsign : (readSign (unpad s.toList)).1 = false := by
    unfold readSign
    split
    · next hu => exact absurd (mem_of_mem_unpad (hu ▸ List.mem_cons_self)) hs
    · rfl
    · rfl
  unfold number? at h
  dsimp only at h
  rw [hsign] at h
  split at h
  · exact .inr (.inl (Option.some.inj h).symm)
  · split at h
    · exact .inl (Option.some.inj h).symm
    · obtain ⟨n, e, rfl⟩ := unsigned?_some h
      rw [ofDecimal_eq]
      exact .inr (rounded_nonnegative _)

end Numeral

namespace Decimal

open Binary64 Numeral

variable {u : Nat}

theorem digits_bounds (hu : u ≠ 0) (hover : u < overflow) :
    10 ^ 5 ≤ (significant 5 u).digits ∧ (significant 5 u).digits ≤ 10 ^ 6 := by
  obtain ⟨hlower, hupper⟩ := leading_bounds hu hover
  obtain ⟨h1, h2⟩ := significant_bounds 5 u
  rw [tens_leading] at hlower
  rw [tens_leading_succ] at hupper
  have hpos := tens_pos (significant 5 u).scale
  exact ⟨steps_le hpos (by push_cast; linarith), steps_le hpos (by push_cast; linarith)⟩

theorem brief_finite (hu : u ≠ 0) :
    brief (.finite false u) = String.ofList (briefLayout.write (significant 5 u)) := by
  simp [brief, written, hu]

theorem number?_brief_finite (hu : u ≠ 0) (hover : u < overflow) :
    number? (brief (.finite false u)) =
      some (.ofDecimal false (significant 5 u).digits (significant 5 u).scale) := by
  have hdigits : (significant 5 u).digits ≠ 0 := by
    have := (digits_bounds hu hover).1
    omega
  rw [brief_finite hu, number?_write hdigits]

/-- The first six digits are six digits. -/
theorem sixDigits_significant (hu : u ≠ 0) (hover : u < overflow)
    (h : ofDecimal false (significant 5 u).digits (significant 5 u).scale = .finite false u) :
    SixDigits (.finite false u) := by
  have heq : ∀ n e, ofDecimal false n e = .finite false u → (ofDecimal false n e).eq (.finite false u) =
      true := fun n e he => by
    rw [ofDecimal_eq] at he ⊢
    exact eq_finite_iff.2 he
  rcases (digits_bounds hu hover).2.lt_or_eq with hlt | hten
  · exact ⟨_, _, hlt, heq _ _ h⟩
  · refine ⟨10 ^ 5, (significant 5 u).scale + (1 : Nat), by decide, heq _ _ ?_⟩
    rw [← h, ofDecimal_eq, ofDecimal_eq, hten, tens_add]
    congr 1
    push_cast
    ring

/-- The brief form of a number that is not negative is read as a number, and as the same number just
if six digits are enough. -/
theorem number?_brief {x : Binary64} (hrange : x.InRange) (hx : x.Nonnegative) :
    ∃ y, number? (brief x) = some y ∧ y.Nonnegative ∧ (y = x ↔ x.SixDigits) := by
  rcases hx with rfl | ⟨u, rfl⟩
  · exact ⟨.infinite false, by decide +kernel, .inl rfl,
      iff_of_true rfl ⟨1, 401, by decide, by decide +kernel⟩⟩
  · by_cases hu : u = 0
    · subst hu
      exact ⟨.finite false 0, by decide +kernel, .inr ⟨0, rfl⟩,
        iff_of_true rfl ⟨0, 0, by decide, by decide +kernel⟩⟩
    · have hover := hrange _ _ rfl
      have hsig := sixDigits_significant hu hover
      refine ⟨_, number?_brief_finite hu hover, ?_⟩
      rw [ofDecimal_eq] at hsig ⊢
      refine ⟨rounded_nonnegative _, hsig, ?_⟩
      rintro ⟨n, e, hn, he⟩
      rw [ofDecimal_eq, eq_finite_iff] at he
      have hnear := nearest_significant hu hover hn (rounded_eq_finite he).1
      rw [rounded, hnear, if_neg (Nat.not_le.2 hover)]

/-! The minus of an exponent. -/

theorem minus_mem_numeral {whole fraction : List Char} {exponent : Option Int}
    (hw : ∀ c ∈ whole, c.isDigit) (hf : ∀ c ∈ fraction, c.isDigit) :
    '-' ∈ numeral whole fraction exponent ↔ ∃ e, exponent = some e ∧ e < 0 := by
  have hdigits : ∀ ds : List Char, (∀ c ∈ ds, c.isDigit) → '-' ∉ ds := fun ds h hm =>
    absurd (h '-' hm) (by decide)
  have hfraction : '-' ∉ fractional fraction := fun hm => by
    rcases mem_fractional hm with h | h
    · exact absurd h (by decide)
    · exact hdigits fraction hf h
  have hmantissa : '-' ∉ whole ++ fractional fraction := fun hm =>
    (List.mem_append.1 hm).elim (hdigits whole hw) hfraction
  rw [numeral, List.mem_append, or_iff_right hmantissa]
  cases exponent with
  | none => simp
  | some e =>
    have hexponent : '-' ∉ exponentDigits e := hdigits _ (isDigit_exponentDigits e)
    rw [Option.map_some, Option.getD_some, exponentText_eq]
    by_cases he : e < 0 <;> simp [he, hexponent]

theorem length_digitsOf {n k : Nat} : (digitsOf n).length ≤ k + 1 ↔ n < 10 ^ (k + 1) := by
  rw [digitsOf, Nat.toString_eq_repr, Nat.toList_repr]
  exact Nat.length_toDigits_le_iff (by decide) (Nat.succ_pos k)

/-- A tenth of a thousandth, rounded. -/
theorem ofDecimal_tenthousandth : ofDecimal false 1 (-4) = .finite false (nearest (tens (-4))) := by
  have hbelow : tens (-4) ≤ (twoTo unitBits : Nat) := by
    have hzero : tens 0 = ((tenTo 0 * twoTo unitBits : Nat) : ℚ) := tens_natCast 0
    rw [show tenTo 0 = 1 from rfl, Nat.one_mul] at hzero
    exact (tens_mono (by decide)).trans_eq hzero
  rw [ofDecimal_eq, Nat.cast_one, one_mul]
  exact rounded_below (tens_pos _).le hbelow (by decide)

theorem tens_le_nearest : tens (-4) ≤ nearest (tens (-4)) := by
  have hneg := tens_neg 4
  have hnear := nearest_div (twoTo unitBits) (tenTo_pos 4)
  rw [← hneg] at hnear
  have hle : powerLe (-4) (roundUnits (twoTo unitBits) (tenTo 4)) := by decide +kernel
  rw [← hnear, powerLe_iff] at hle
  exact hle

/-- A number that six digits are enough for is written with a negative exponent just if it is less than
a tenth of a thousandth. -/
theorem negative_iff (hu : u ≠ 0) (hover : u < overflow) (h : SixDigits (.finite false u)) :
    (significant 5 u).scale + (digitsOf (significant 5 u).digits).length - 1 < -4 ↔
      u < nearest (tens (-4)) := by
  obtain ⟨n, e, hn, he⟩ := h
  rw [ofDecimal_eq, eq_finite_iff] at he
  have hnear := (rounded_eq_finite he).1
  have hself : nearest (u : ℚ) = u := by rw [← hnear, nearest_nearest]
  obtain ⟨hlower, hupper⟩ := leading_bounds hu hover
  obtain ⟨hmin, hmax⟩ := digits_bounds hu hover
  have hlong : ¬(digitsOf (significant 5 u).digits).length ≤ 4 + 1 := by
    rw [length_digitsOf]
    omega
  have hscale : (significant 5 u).scale = leading u - 5 := rfl
  constructor
  · intro hneg
    have hlt : (u : ℚ) < nearest (tens (-4)) :=
      calc (u : ℚ) < tens (leading u + 1) := hupper
        _ ≤ tens (-4) := tens_mono (by omega)
        _ ≤ nearest (tens (-4)) := tens_le_nearest
    exact_mod_cast hlt
  · intro hlt
    have hlt' : (u : ℚ) < tens (-4) := by
      by_contra hge
      have hle := nearest_mono (tens_pos (-4)).le (not_lt.1 hge)
      rw [hself] at hle
      omega
    have hleading : leading u < -4 := by
      by_contra hge
      have := tens_mono (not_lt.1 hge)
      linarith
    rcases hmax.lt_or_eq with hshort | hten
    · have := length_digitsOf.2 hshort
      omega
    · -- rounding has gone up to a power of ten
      have hlength : (digitsOf (significant 5 u).digits).length ≤ 6 + 1 := by
        rw [length_digitsOf, hten]
        decide
      by_contra hge
      have hfive : leading u = -5 := by omega
      have hround := nearest_significant hu hover hn hnear
      have hpower : ((10 ^ 6 : Nat) : ℚ) * tens (-10) = tens (-4) := by
        have h := tens_add (-10) 6
        rw [show (-10 : Int) + (6 : Nat) = -4 by rfl] at h
        rw [h]
        norm_num
      rw [hten, hscale, hfive, show (-5 : Int) - 5 = -10 by rfl, hpower] at hround
      omega

theorem positional_finite (hu : u ≠ 0) : (Binary64.finite false u).Positional ↔ nearest (tens (-4)) ≤ u := by
  rw [Binary64.Positional, ofDecimal_tenthousandth]
  simp only [Binary64.eq, Binary64.zero, Binary64.le, Binary64.lt, signed, Bool.or_eq_true,
    decide_eq_true_eq, Bool.false_eq_true, if_false]
  omega

/-- Where six digits are enough, the brief form has a minus in it just if the number is not positional. -/
theorem minus_mem_brief {x : Binary64} (hrange : x.InRange)
    (hx : x.Nonnegative) (h : x.SixDigits) :
    '-' ∈ (brief x).toList ↔ ¬x.Positional := by
  rcases hx with rfl | ⟨u, rfl⟩
  · exact iff_of_false (by decide) (not_not.2 (.inr (by rw [ofDecimal_tenthousandth]; rfl)))
  · by_cases hu : u = 0
    · subst hu
      exact iff_of_false (by decide) (not_not.2 (.inl rfl))
    · have hover := hrange _ _ rfl
      have hdigits : (significant 5 u).digits ≠ 0 := by
        have := (digits_bounds hu hover).1
        omega
      obtain ⟨whole, fraction, exponent, hw, hs⟩ := write_shows hdigits
      rw [brief_finite hu, String.toList_ofList, hw,
        minus_mem_numeral hs.whole_digits hs.fraction_digits, hs.negative, negative_iff hu hover h,
        positional_finite hu, not_le]

/-- Up to a minus, the brief form of a number is no number. -/
theorem brief_cut {x : Binary64} (hrange : x.InRange)
    (hx : x.Nonnegative) (h : '-' ∈ (brief x).toList) :
    ∃ front back, (brief x).toList = front ++ '-' :: back ∧ '-' ∉ front ∧
      number? (String.ofList front) = none := by
  rcases hx with rfl | ⟨u, rfl⟩
  · exact absurd h (by decide)
  · by_cases hu : u = 0
    · subst hu
      exact absurd h (by decide)
    · have hdigits : (significant 5 u).digits ≠ 0 := by
        have := (digits_bounds hu (hrange _ _ rfl)).1
        omega
      obtain ⟨whole, fraction, exponent, hw, hs⟩ := write_shows hdigits
      rw [brief_finite hu, String.toList_ofList, hw] at h ⊢
      obtain ⟨e, rfl, he⟩ := (minus_mem_numeral hs.whole_digits hs.fraction_digits).1 h
      refine ⟨whole ++ fractional fraction ++ ['e'], exponentDigits e, ?_, ?_,
        number?_cut hs.whole_digits hs.fraction_digits hs.nonempty⟩
      · rw [numeral, Option.map_some, Option.getD_some, exponentText_eq, if_pos he]
        simp
      · intro hm
        rcases List.mem_append.1 hm with hm | hm
        · have hplain : '-' ∈ numeral whole fraction none := by simpa [numeral] using hm
          obtain ⟨f, hf, -⟩ := (minus_mem_numeral hs.whole_digits hs.fraction_digits).1 hplain
          contradiction
        · exact absurd hm (by decide)

/-- The signs of a brief form. -/
theorem brief_chars {x : Binary64} (hrange : x.InRange) :
    ∀ c ∈ (brief x).toList, c.isDigit ∨ c ∈ ['.', 'e', '+', '-', 'i', 'n', 'f', 'a'] := by
  have hnames : ∀ s ∈ ["nan", "inf", "-inf", "0", "-0"], ∀ c ∈ s.toList,
      c.isDigit ∨ c ∈ ['.', 'e', '+', '-', 'i', 'n', 'f', 'a'] := by decide
  cases x with
  | nan => exact hnames "nan" (by decide)
  | infinite s => cases s <;> exact hnames _ (by decide)
  | finite s u =>
    by_cases hu : u = 0
    · subst hu
      cases s <;> exact hnames _ (by decide)
    · have hdigits : (significant 5 u).digits ≠ 0 := by
        have := (digits_bounds hu (hrange _ _ rfl)).1
        omega
      obtain ⟨whole, fraction, exponent, hw, hs⟩ := write_shows hdigits
      intro c hc
      have hcases : c = '-' ∨ c ∈ numeral whole fraction exponent := by
        cases s <;> simp_all [brief, written]
      rcases hcases with rfl | hc
      · simp
      · exact (numeral_chars hs.whole_digits hs.fraction_digits c hc).imp_right
          (List.mem_append_left ['i', 'n', 'f', 'a'])

end Decimal

end Macros
