import Macros.Proofs.Number.Decimals
import Macros.Proofs.Number.Numerals
import Mathlib.Data.List.TakeWhile

/-!
What a written decimal is read as. Every layout writes a numeral: digits, a point with more digits behind
it, an exponent, the last two only where they are needed. The numeral stands for the decimal that was
written, so that is what is read; and it has a minus in it only if its exponent is negative.
-/

namespace Macros

namespace Numeral

open Text Decimal

/-- The number that digits stand for. -/
def value (ds : List Char) : Nat := Nat.ofDigitChars 10 ds 0

theorem ofDigits_eq {ds : List Char} (h : ∀ c ∈ ds, c.isDigit) :
    ofDigits (ds.filterMap digitValue?) = value ds :=
  FreeName.foldl_digits h 0

theorem value_append_zeros (ds : List Char) (k : Nat) :
    value (ds ++ List.replicate k '0') = value ds * 10 ^ k := by
  rw [value, Nat.ofDigitChars_append, Nat.ofDigitChars_replicate_zero, Nat.mul_comm, value]

theorem value_zeros_append (k : Nat) (ds : List Char) :
    value (List.replicate k '0' ++ ds) = value ds := by
  rw [value, Nat.ofDigitChars_append, Nat.ofDigitChars_replicate_zero, Nat.mul_zero, value]

/-- A point and the digits behind it, if there are any. -/
def fractional : List Char → List Char
  | [] => []
  | ds => '.' :: ds

/-- Digits, the digits behind a point, and an exponent. -/
def numeral (whole fraction : List Char) (exponent : Option Int) : List Char :=
  whole ++ fractional fraction ++ (exponent.map exponentText).getD []

@[simp] theorem fractional_cons (c : Char) (ds : List Char) : fractional (c :: ds) = '.' :: c :: ds := rfl

theorem mem_fractional {ds : List Char} {c : Char} (h : c ∈ fractional ds) : c = '.' ∨ c ∈ ds := by
  cases ds with
  | nil => exact absurd h List.not_mem_nil
  | cons d ds => simpa using h

theorem isDigit_digitsOf (n : Nat) : ∀ c ∈ digitsOf n, c.isDigit := by
  intro c hc
  rw [digitsOf, Nat.toString_eq_repr, Nat.toList_repr] at hc
  exact Nat.isDigit_of_mem_toDigits (by decide) (by decide) hc

@[simp] theorem value_digitsOf (n : Nat) : value (digitsOf n) = n := by
  rw [value, digitsOf, Nat.toString_eq_repr, Nat.toList_repr, Nat.ofDigitChars_ten_toDigits]

theorem digitsOf_ne_nil (n : Nat) : digitsOf n ≠ [] := by
  rw [digitsOf, Nat.toString_eq_repr, Nat.toList_repr]
  exact Nat.toDigits_ne_nil

/-! Exponents. -/

/-- The digits of an exponent, at least two. -/
def exponentDigits (e : Int) : List Char :=
  if (digitsOf e.natAbs).length < 2 then '0' :: digitsOf e.natAbs else digitsOf e.natAbs

theorem exponentText_eq (e : Int) :
    exponentText e = 'e' :: (if e < 0 then '-' else '+') :: exponentDigits e := rfl

theorem isDigit_exponentDigits (e : Int) : ∀ c ∈ exponentDigits e, c.isDigit := by
  have h := isDigit_digitsOf e.natAbs
  unfold exponentDigits
  split
  · exact List.forall_mem_cons.2 ⟨by decide, h⟩
  · exact h

theorem value_exponentDigits (e : Int) : value (exponentDigits e) = e.natAbs := by
  unfold exponentDigits
  split
  · exact (value_zeros_append 1 _).trans (value_digitsOf _)
  · exact value_digitsOf _

theorem exponentDigits_ne_nil (e : Int) : exponentDigits e ≠ [] := by
  unfold exponentDigits
  split
  · exact List.cons_ne_nil _ _
  · exact digitsOf_ne_nil _

theorem exponent?_exponentText (e : Int) : exponent? (exponentText e) = some e := by
  have hd := isDigit_exponentDigits e
  have hread := readDigits_digits hd
  have hvalue := (ofDigits_eq hd).trans (value_exponentDigits e)
  have hne : (exponentDigits e).filterMap digitValue? ≠ [] := by
    obtain ⟨c, ds, hc⟩ := List.exists_cons_of_ne_nil (exponentDigits_ne_nil e)
    have hdigit := FreeName.digitValue?_of_isDigit (hd c (by simp [hc]))
    rw [hc, List.filterMap_cons_some hdigit]
    exact List.cons_ne_nil _ _
  obtain ⟨n, ns, hns⟩ := List.exists_cons_of_ne_nil hne
  rw [hns] at hread hvalue
  rw [exponentText_eq]
  by_cases he : e < 0
  · simp only [he, exponent?, readSign, hread, hvalue, if_true]
    refine congrArg some ?_
    omega
  · simp only [he, exponent?, readSign, hread, hvalue, if_false, Bool.false_eq_true]
    refine congrArg some ?_
    omega

/-! Reading numerals. -/

variable {whole fraction : List Char} {exponent : Option Int}

theorem length_digits {ds : List Char} (h : ∀ c ∈ ds, c.isDigit) :
    (ds.filterMap digitValue?).length = ds.length := by
  induction ds with
  | nil => rfl
  | cons c ds ih =>
    rw [List.filterMap_cons_some (FreeName.digitValue?_of_isDigit (h c List.mem_cons_self)),
      List.length_cons, List.length_cons, ih fun d hd => h d (List.mem_cons_of_mem c hd)]

theorem exponent?_tail (exponent : Option Int) :
    exponent? ((exponent.map exponentText).getD []) = some (exponent.getD 0) := by
  cases exponent with
  | none => rfl
  | some e => exact exponent?_exponentText e

theorem tail_head (exponent : Option Int) :
    ∀ c ∈ ((exponent.map exponentText).getD []).head?, c = 'e' := by
  cases exponent with
  | none => simp
  | some e => simp [exponentText_eq]

/-- Digits, and behind a point more digits, up to what neither a digit nor a point begins. -/
theorem unsigned?_of_exponent {tail : List Char} (hw : ∀ c ∈ whole, c.isDigit)
    (hf : ∀ c ∈ fraction, c.isDigit) (hne : whole ≠ []) (htail : ∀ c ∈ tail.head?, c = 'e') :
    unsigned? false (whole ++ fractional fraction ++ tail) = (exponent? tail).map fun e =>
      .ofDecimal false (value (whole ++ fraction)) (e - fraction.length) := by
  have hstop : ∀ c ∈ tail.head?, digitValue? c = none ∧ c ≠ '_' := fun c hc => by
    rw [htail c hc]
    decide
  have hsome : (whole.filterMap digitValue?).isEmpty = false := by
    rw [List.isEmpty_eq_false_iff, ← List.length_pos_iff, length_digits hw]
    exact List.length_pos_iff.2 hne
  have hvalue : ofDigits (whole.filterMap digitValue? ++ fraction.filterMap digitValue?) =
      value (whole ++ fraction) := by
    rw [← List.filterMap_append]
    exact ofDigits_eq fun c hc => (List.mem_append.1 hc).elim (hw c) (hf c)
  unfold unsigned?
  rw [List.append_assoc]
  cases fraction with
  | nil =>
    have hvalue' : ofDigits (whole.filterMap digitValue?) = value whole := ofDigits_eq hw
    rw [fractional, List.nil_append, readDigits_append hw hstop]
    cases tail with
    | nil => simp [hsome, hvalue']
    | cons c tail =>
      obtain rfl := htail c rfl
      simp [hsome, hvalue']
  | cons d ds =>
    have hpoint : ∀ c ∈ (fractional (d :: ds) ++ tail).head?, digitValue? c = none ∧ c ≠ '_' := by
      intro c hc
      obtain rfl : '.' = c := by simpa using hc
      decide
    have hread := readDigits_append hf hstop
    rw [readDigits_append hw hpoint, fractional_cons, List.cons_append]
    simp only [hread, hsome, hvalue, length_digits hf, Bool.false_and, Bool.false_eq_true, if_false]

theorem unsigned?_numeral (hw : ∀ c ∈ whole, c.isDigit) (hf : ∀ c ∈ fraction, c.isDigit)
    (hne : whole ≠ []) :
    unsigned? false (numeral whole fraction exponent) =
      some (.ofDecimal false (value (whole ++ fraction)) (exponent.getD 0 - fraction.length)) := by
  rw [numeral, unsigned?_of_exponent hw hf hne (tail_head exponent), exponent?_tail]
  rfl

theorem number?_of_digit {s : List Char} (hpad : ∀ c ∈ s, isPadding c = false)
    (hfirst : ∃ c ∈ s.head?, c.isDigit) : number? (String.ofList s) = unsigned? false s := by
  obtain ⟨c, hc, hdigit⟩ := hfirst
  obtain ⟨r, rfl⟩ := List.head?_eq_some_iff.1 hc
  have hsign : readSign (c :: r) = (false, c :: r) := by
    unfold readSign
    split
    · next h =>
      obtain ⟨rfl, -⟩ := List.cons.inj h
      exact absurd hdigit (by decide)
    · next h =>
      obtain ⟨rfl, -⟩ := List.cons.inj h
      exact absurd hdigit (by decide)
    · rfl
  have hname : ∀ d ds, d.isDigit = false → String.ofList ((c :: r).map asciiLower) ≠ String.ofList (d :: ds) := by
    rintro d ds hd he
    have hhead := (List.cons.inj (String.ofList_injective he)).1
    have hupper : c.isUpper = false := by
      have := isDigit_iff.1 hdigit
      refine decide_eq_false ?_
      rintro ⟨h, -⟩
      have h65 : 65 ≤ c.toNat := h
      omega
    rw [asciiLower, hupper, if_neg Bool.false_ne_true] at hhead
    rw [hhead, hd] at hdigit
    exact Bool.false_ne_true hdigit
  have hinf := hname 'i' ['n', 'f'] (by decide)
  have hinfinity := hname 'i' ['n', 'f', 'i', 'n', 'i', 't', 'y'] (by decide)
  have hnan := hname 'n' ['a', 'n'] (by decide)
  unfold number?
  rw [String.toList_ofList, unpad_digits hpad, hsign]
  dsimp only
  rw [if_neg, if_neg hnan]
  rw [Bool.or_eq_true, decide_eq_true_eq, decide_eq_true_eq]
  exact fun h => h.elim hinf hinfinity

/-- The signs of a numeral are no blanks. -/
theorem numeral_chars (hw : ∀ c ∈ whole, c.isDigit) (hf : ∀ c ∈ fraction, c.isDigit) :
    ∀ c ∈ numeral whole fraction exponent, c.isDigit ∨ c ∈ ['.', 'e', '+', '-'] := by
  intro c hc
  rcases List.mem_append.1 hc with hc | hc
  · rcases List.mem_append.1 hc with hc | hc
    · exact .inl (hw c hc)
    · exact (mem_fractional hc).symm.imp (hf c) fun h => by simp [h]
  · cases exponent with
    | none => exact absurd hc List.not_mem_nil
    | some e =>
      rw [Option.map_some, Option.getD_some, exponentText_eq, List.mem_cons, List.mem_cons] at hc
      rcases hc with rfl | rfl | hc
      · simp
      · split <;> simp
      · exact .inl (isDigit_exponentDigits e c hc)

theorem not_padding_of_numeral {c : Char} (h : c.isDigit ∨ c ∈ ['.', 'e', '+', '-']) :
    isPadding c = false := by
  rcases h with h | h
  · exact not_padding_of_isDigit h
  · revert c
    decide

theorem head_numeral (hw : ∀ c ∈ whole, c.isDigit) (hne : whole ≠ []) (r : List Char) :
    ∃ c ∈ (whole ++ r).head?, c.isDigit := by
  obtain ⟨c, ds, rfl⟩ := List.exists_cons_of_ne_nil hne
  exact ⟨c, rfl, hw c List.mem_cons_self⟩

theorem number?_numeral (hw : ∀ c ∈ whole, c.isDigit) (hf : ∀ c ∈ fraction, c.isDigit)
    (hne : whole ≠ []) :
    number? (String.ofList (numeral whole fraction exponent)) =
      some (.ofDecimal false (value (whole ++ fraction)) (exponent.getD 0 - fraction.length)) := by
  rw [number?_of_digit (fun c hc => not_padding_of_numeral (numeral_chars hw hf c hc)),
    unsigned?_numeral hw hf hne]
  rw [numeral, List.append_assoc]
  exact head_numeral hw hne _

/-- A numeral that is cut off behind the sign of its exponent is no number. -/
theorem number?_cut (hw : ∀ c ∈ whole, c.isDigit) (hf : ∀ c ∈ fraction, c.isDigit) (hne : whole ≠ []) :
    number? (String.ofList (whole ++ fractional fraction ++ ['e'])) = none := by
  rw [number?_of_digit, unsigned?_of_exponent hw hf hne (by simp)]
  · rfl
  · intro c hc
    refine not_padding_of_numeral ?_
    rcases List.mem_append.1 hc with hc | hc
    · have hmem : c ∈ numeral whole fraction none := by simpa [numeral] using hc
      exact numeral_chars hw hf c hmem
    · simp_all
  · rw [List.append_assoc]
    exact head_numeral hw hne _

end Numeral

namespace Decimal

open Numeral Binary64

/-! Writing numerals. -/

/-- A numeral for a decimal, and when the exponent that it has is negative. -/
structure Shows (x : Scaled) (whole fraction : List Char) (exponent : Option Int) : Prop where
  whole_digits : ∀ c ∈ whole, c.isDigit
  fraction_digits : ∀ c ∈ fraction, c.isDigit
  nonempty : whole ≠ []
  same : (value (whole ++ fraction) : ℚ) * tens (exponent.getD 0 - fraction.length) =
    x.digits * tens x.scale
  negative : (∃ e, exponent = some e ∧ e < 0) ↔ x.scale + (digitsOf x.digits).length - 1 < -4

theorem dropZeros_append (ds : List Char) : ∃ k, ds = dropZeros ds ++ List.replicate k '0' := by
  refine ⟨(ds.reverse.takeWhile (· = '0')).length, ?_⟩
  have hzeros : ds.reverse.takeWhile (· = '0') =
      List.replicate (ds.reverse.takeWhile (· = '0')).length '0' :=
    List.eq_replicate_iff.2 ⟨rfl, fun c hc => by simpa using List.mem_takeWhile_imp hc⟩
  have hsplit := congrArg List.reverse (List.takeWhile_append_dropWhile (p := (· = '0')) (l := ds.reverse))
  rw [List.reverse_append, List.reverse_reverse] at hsplit
  rw [dropZeros]
  conv_lhs => rw [← hsplit]
  rw [hzeros, List.reverse_replicate, List.length_replicate]

theorem dropZeros_ne_nil {n : Nat} (hn : n ≠ 0) : dropZeros (digitsOf n) ≠ [] := by
  obtain ⟨k, hk⟩ := dropZeros_append (digitsOf n)
  intro he
  rw [he, List.nil_append] at hk
  have hzero := value_digitsOf n
  rw [hk, ← List.append_nil (List.replicate k '0'), value_zeros_append] at hzero
  exact hn hzero.symm

/-- The digits of a decimal without the zeros at their end, of which there are `k`. -/
structure Stripped (x : Scaled) (ds : List Char) (k : Nat) : Prop where
  nonempty : ds ≠ []
  digits : ∀ c ∈ ds, c.isDigit
  length : (digitsOf x.digits).length = ds.length + k
  same : (value ds : ℚ) * tens (x.scale + k) = x.digits * tens x.scale

theorem exists_stripped {x : Scaled} (hx : x.digits ≠ 0) :
    ∃ k, Stripped x (dropZeros (digitsOf x.digits)) k := by
  obtain ⟨k, hk⟩ := dropZeros_append (digitsOf x.digits)
  have hvalue := value_digitsOf x.digits
  rw [hk, value_append_zeros] at hvalue
  refine ⟨k, dropZeros_ne_nil hx, fun c hc => ?_, ?_, ?_⟩
  · exact isDigit_digitsOf x.digits c (hk ▸ List.mem_append_left _ hc)
  · conv_lhs => rw [hk]
    simp
  · have hcast : (value (dropZeros (digitsOf x.digits)) : ℚ) * 10 ^ k = x.digits := by
      exact_mod_cast hvalue
    rw [tens_add, ← mul_assoc, hcast]

section

variable {x : Scaled} {ds : List Char} {k : Nat} {e : Int}

theorem isDigit_zeros (n : Nat) : ∀ c ∈ List.replicate n '0', c.isDigit := fun c hc => by
  rw [List.eq_of_mem_replicate hc]
  decide

/-- Without an exponent nothing is negative. -/
theorem not_negative (he : x.scale + (digitsOf x.digits).length - 1 = e) (h : -4 ≤ e) :
    (∃ f, (none : Option Int) = some f ∧ f < 0) ↔ x.scale + (digitsOf x.digits).length - 1 < -4 := by
  rw [he]
  constructor
  · rintro ⟨f, hf, -⟩
    contradiction
  · exact fun hlt => absurd hlt (not_lt.2 h)

/-- The first digit, the others behind a point, and an exponent. -/
theorem Stripped.scientific {d : Char} (h : Stripped x (d :: ds) k)
    (he : x.scale + (digitsOf x.digits).length - 1 = e) (hexp : e < -4 ∨ 6 ≤ e) :
    Shows x [d] ds (some e) where
  whole_digits := fun c hc => by
    rw [List.mem_singleton.1 hc]
    exact h.digits d List.mem_cons_self
  fraction_digits := fun c hc => h.digits c (List.mem_cons_of_mem d hc)
  nonempty := List.cons_ne_nil _ _
  same := by
    have hlength := h.length
    rw [List.length_cons] at hlength
    rw [← h.same, Option.getD_some, show e - ds.length = x.scale + k by omega]
    rfl
  negative := by
    rw [he]
    constructor
    · rintro ⟨f, hf, hneg⟩
      obtain rfl := Option.some.inj hf
      omega
    · exact fun h => ⟨e, rfl, by omega⟩

/-- A zero, and behind the point zeros and all digits. -/
theorem Stripped.small (h : Stripped x ds k) (he : x.scale + (digitsOf x.digits).length - 1 = e)
    (hlow : -4 ≤ e) (hneg : e < 0) :
    Shows x ['0'] (List.replicate (-e - 1).toNat '0' ++ ds) none where
  whole_digits := by decide
  fraction_digits := fun c hc => (List.mem_append.1 hc).elim (isDigit_zeros _ c) (h.digits c)
  nonempty := List.cons_ne_nil _ _
  same := by
    have hlength := h.length
    have hzeros : ['0'] ++ (List.replicate (-e - 1).toNat '0' ++ ds) =
        List.replicate ((-e - 1).toNat + 1) '0' ++ ds := by
      rw [List.replicate_succ]
      rfl
    have hexp : (none : Option Int).getD 0 - (List.replicate (-e - 1).toNat '0' ++ ds).length =
        x.scale + k := by
      rw [Option.getD_none, List.length_append, List.length_replicate]
      push_cast
      omega
    rw [hzeros, value_zeros_append, ← h.same, hexp]
  negative := not_negative he hlow

/-- As many digits before the point as the number has, with zeros if there are too few. -/
theorem Stripped.positional (h : Stripped x ds k) (he : x.scale + (digitsOf x.digits).length - 1 = e)
    (hpos : 0 ≤ e) :
    Shows x (ds.take (e + 1).toNat ++ List.replicate ((e + 1).toNat - ds.length) '0')
      (ds.drop (e + 1).toNat) none where
  whole_digits := fun c hc =>
    (List.mem_append.1 hc).elim (fun hm => h.digits c (List.mem_of_mem_take hm)) (isDigit_zeros _ c)
  fraction_digits := fun c hc => h.digits c (List.mem_of_mem_drop hc)
  nonempty := fun hnil => by
    have htake : (ds.take (e + 1).toNat).length = min (e + 1).toNat ds.length := List.length_take
    have hds := List.length_pos_iff.2 h.nonempty
    rw [(List.append_eq_nil_iff.1 hnil).1, List.length_nil] at htake
    omega
  same := by
    have hlength := h.length
    rcases Nat.le_total ds.length (e + 1).toNat with hle | hle
    · have hten := tens_add 0 ((e + 1).toNat - ds.length)
      rw [show (0 : Int) + ((e + 1).toNat - ds.length : Nat) = x.scale + k by omega] at hten
      rw [List.take_of_length_le hle, List.drop_of_length_le hle, List.append_nil, value_append_zeros,
        Option.getD_none, List.length_nil, Nat.cast_zero, sub_zero, ← h.same, hten]
      push_cast
      ring
    · have hexp : (none : Option Int).getD 0 - (ds.drop (e + 1).toNat).length = x.scale + k := by
        rw [Option.getD_none, List.length_drop]
        omega
      rw [Nat.sub_eq_zero_of_le hle, List.replicate_zero, List.append_nil, List.take_append_drop,
        ← h.same, hexp]
  negative := not_negative he (by omega)

end

/-- Every decimal is written as a numeral for it. -/
theorem write_shows {x : Scaled} (hx : x.digits ≠ 0) : ∃ whole fraction exponent,
    briefLayout.write x = numeral whole fraction exponent ∧ Shows x whole fraction exponent := by
  obtain ⟨k, h⟩ := exists_stripped hx
  unfold Layout.write
  dsimp only
  generalize dropZeros (digitsOf x.digits) = ds at h
  generalize he : x.scale + ((digitsOf x.digits).length : Int) - 1 = e
  split
  · next hexp =>
    rw [Bool.or_eq_true, decide_eq_true_eq, decide_eq_true_eq] at hexp
    obtain ⟨d, rest, rfl⟩ := List.exists_cons_of_ne_nil h.nonempty
    refine ⟨[d], rest, some e, ?_, h.scientific he hexp⟩
    cases rest <;> rfl
  · next hexp =>
    rw [Bool.or_eq_true, decide_eq_true_eq, not_or, not_lt] at hexp
    split
    · next hneg =>
      refine ⟨_, _, _, ?_, h.small he hexp.1 hneg⟩
      obtain ⟨d, rest, rfl⟩ := List.exists_cons_of_ne_nil h.nonempty
      cases hz : List.replicate (-e - 1).toNat '0' <;> simp [numeral, fractional]
    · next hneg =>
      refine ⟨_, _, _, ?_, h.positional he (not_lt.1 hneg)⟩
      split
      · next hdrop => simp [numeral, hdrop, fractional, briefLayout]
      · next hdrop =>
        obtain ⟨d, rest, hd⟩ := List.exists_cons_of_ne_nil hdrop
        simp [numeral, hd]

/-- What is written in brief is read as the decimal that was written. -/
theorem number?_write {x : Scaled} (hx : x.digits ≠ 0) :
    number? (String.ofList (briefLayout.write x)) = some (.ofDecimal false x.digits x.scale) := by
  obtain ⟨whole, fraction, exponent, hw, h⟩ := write_shows hx
  rw [hw, number?_numeral h.whole_digits h.fraction_digits h.nonempty, ofDecimal_eq, ofDecimal_eq, h.same]

end Decimal

end Macros
