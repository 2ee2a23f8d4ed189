import Macros.Number.Numeral
import Macros.Proofs.Tree.FreeName
import Mathlib.Algebra.Group.Nat.Defs
import Mathlib.Data.List.Basic

/-!
Numerals of digits. Digits are read up to the first character that is none, so a whole number is read back
from its digits; and a number that was read from a numeral is not too large to be written.
-/

namespace Macros

namespace Numeral

open Text

theorem digitValue?_lt {c : Char} {d : Nat} (h : digitValue? c = some d) : d < 10 := by
  unfold digitValue? at h
  dsimp only at h
  split at h
  · split at h
    · next hc =>
      simp only [Bool.and_eq_true, decide_eq_true_eq] at hc
      obtain rfl := Option.some.inj h
      omega
    · contradiction
  · obtain ⟨z, hz, rfl⟩ := Option.map_eq_some_iff.1 h
    have := List.find?_some hz
    simp only [Bool.and_eq_true, decide_eq_true_eq] at this
    omega

theorem readDigits_lt {s : List Char} : ∀ d ∈ (readDigits s).1, d < 10 := by
  induction s using readDigits.induct with
  | case1 => simp [readDigits]
  | case2 c s h => simp [readDigits, h]
  | case3 c s d h hs ih =>
    simp only [readDigits, h, hs, if_true]
    exact List.forall_mem_cons.2 ⟨digitValue?_lt h, ih⟩
  | case4 c s d h hs =>
    simp only [readDigits, h, hs]
    simpa using digitValue?_lt h
  | case5 c s hn h =>
    simp [readDigits, h]
  | case6 c s hn d h ih =>
    simp only [readDigits, h]
    exact List.forall_mem_cons.2 ⟨digitValue?_lt h, ih⟩

theorem foldl_digits_lt {ds : List Nat} (h : ∀ d ∈ ds, d < 10) (n : Nat) :
    ds.foldl (fun n d => 10 * n + d) n < (n + 1) * 10 ^ ds.length := by
  induction ds generalizing n with
  | nil => simp
  | cons d ds ih =>
    have hd := h d List.mem_cons_self
    have := ih (fun e he => h e (List.mem_cons_of_mem d he)) (10 * n + d)
    rw [List.foldl_cons, List.length_cons, Nat.pow_succ']
    calc _ < (10 * n + d + 1) * 10 ^ ds.length := this
      _ ≤ (10 * (n + 1)) * 10 ^ ds.length := Nat.mul_le_mul_right _ (by omega)
      _ = (n + 1) * (10 * 10 ^ ds.length) := by rw [← Nat.mul_assoc, Nat.mul_comm 10]

theorem ofDigits_lt {ds : List Nat} (h : ∀ d ∈ ds, d < 10) : ofDigits ds < 10 ^ ds.length := by
  simpa [ofDigits] using foldl_digits_lt h 0

/-- A whole number that was read can be written. -/
theorem integer?_lt {s : String} {n : Int} (h : integer? s = some n) :
    n.natAbs < 10 ^ maxDigits := by
  unfold integer? readInteger at h
  dsimp only at h
  split at h
  · contradiction
  · contradiction
  · next ds rest _ _ hd =>
    split at h
    · contradiction
    · next hl =>
      split at h
      · contradiction
      · have hlt : ∀ d ∈ ds, d < 10 := by
          have := readDigits_lt (s := (readSign (unpad s.toList)).2)
          rwa [hd] at this
        have hb : ofDigits ds < 10 ^ maxDigits :=
          Nat.lt_of_lt_of_le (ofDigits_lt hlt) (Nat.pow_le_pow_right (by decide) (Nat.le_of_not_lt hl))
        have := Option.some.inj h
        split at this
        · omega
        · omega

theorem readDigits_stop {c : Char} (h : digitValue? c = none) (s : List Char) :
    readDigits (c :: s) = ([], c :: s) := by
  unfold readDigits
  split <;> simp_all

/-- Digits are read up to what is none of them and joins none. -/
theorem readDigits_append {ds r : List Char} (h : ∀ c ∈ ds, c.isDigit)
    (hr : ∀ c ∈ r.head?, digitValue? c = none ∧ c ≠ '_') :
    readDigits (ds ++ r) = (ds.filterMap digitValue?, r) := by
  induction ds with
  | nil =>
    cases r with
    | nil => rfl
    | cons c r => exact readDigits_stop (hr c rfl).1 r
  | cons c ds ih =>
    have hc := FreeName.digitValue?_of_isDigit (h c List.mem_cons_self)
    have ih := ih fun d hd => h d (List.mem_cons_of_mem c hd)
    have hnext : ∀ d ∈ (ds ++ r).head?, d ≠ '_' := by
      cases ds with
      | nil => exact fun d hd => (hr d hd).2
      | cons e ds =>
        rintro d hd rfl
        obtain rfl := Option.some.inj hd
        exact absurd (h '_' (by simp)) (by decide)
    rw [List.filterMap_cons_some hc, List.cons_append]
    cases hs : ds ++ r with
    | nil =>
      rw [hs] at ih
      rw [readDigits, hc, ih]
      simp
    | cons d s =>
      rw [hs] at ih hnext
      rw [readDigits, hc, ih]
      simpa using hnext d rfl

theorem readDigits_digits {ds : List Char} (h : ∀ c ∈ ds, c.isDigit) :
    readDigits ds = (ds.filterMap digitValue?, []) := by
  simpa using readDigits_append (r := []) h (by simp)

theorem unpad_digits {ds : List Char} (h : ∀ c ∈ ds, isPadding c = false) : unpad ds = ds := by
  have hdrop : ∀ ds : List Char, (∀ c ∈ ds, isPadding c = false) → ds.dropWhile isPadding = ds := by
    intro ds h
    cases ds with
    | nil => rfl
    | cons c ds => exact List.dropWhile_cons_of_neg (by simp [h c])
  rw [unpad, hdrop ds h, hdrop ds.reverse fun c hc => h c (List.mem_reverse.1 hc),
    List.reverse_reverse]

theorem readSign_digits {ds : List Char} (h : ∀ c ∈ ds, c.isDigit) : readSign ds = (false, ds) := by
  unfold readSign
  split
  · exact absurd (h '-' List.mem_cons_self) (by decide)
  · exact absurd (h '+' List.mem_cons_self) (by decide)
  · rfl

theorem isDigit_iff {c : Char} : c.isDigit ↔ 48 ≤ c.toNat ∧ c.toNat ≤ 57 := by
  simp only [Char.isDigit, Bool.and_eq_true, decide_eq_true_eq]
  exact Iff.rfl

theorem not_padding_of_isDigit {c : Char} (h : c.isDigit) : isPadding c = false := by
  have := isDigit_iff.1 h
  have hsp : c ≠ ' ' := by
    rintro rfl
    exact absurd h (by decide)
  rw [isPadding, if_pos (by omega)]
  simp [hsp]
  omega

theorem isDigit_of_mem_toString {n : Nat} {c : Char} (h : c ∈ (toString n).toList) : c.isDigit := by
  rw [Nat.toString_eq_repr, Nat.toList_repr] at h
  exact Nat.isDigit_of_mem_toDigits (by decide) (by decide) h

/-- What is written of a number is what can be read again. -/
theorem writeNat_ok {n : Nat} {digits : String} (h : writeNat n = .ok digits) :
    digits = toString n ∧ n < 10 ^ maxDigits := by
  have hpower : ∀ k, tenTo k = 10 ^ k := fun _ => rfl
  unfold writeNat at h
  split at h
  · contradiction
  · next hn =>
    rw [hpower] at hn
    exact ⟨(Except.ok.inj h).symm, Nat.lt_of_not_le hn⟩

/-- Digits are read as the number they stand for, unless there are too many of them. -/
theorem integer?_digits {s : String} (hne : s ≠ "") (h : ∀ c ∈ s.toList, c.isDigit) :
    integer? s = if maxDigits < s.length then none else some (Nat.ofDigitChars 10 s.toList 0 : Int) := by
  have hvalue : ofDigits (s.toList.filterMap digitValue?) = Nat.ofDigitChars 10 s.toList 0 :=
    FreeName.foldl_digits h 0
  have hvalues : s.toList.filterMap digitValue? = s.toList.map (·.toNat - 48) := by
    rw [← List.filterMap_eq_map]
    exact List.filterMap_congr fun c hc => FreeName.digitValue?_of_isDigit (h c hc)
  have hlength : (s.toList.filterMap digitValue?).length = s.length := by
    rw [hvalues, List.length_map, String.length_toList]
  unfold integer? readInteger
  rw [unpad_digits fun c hc => not_padding_of_isDigit (h c hc), readSign_digits h]
  dsimp only
  rw [readDigits_digits h]
  split
  · next he =>
    have hnil := (Prod.mk.inj he).1
    rw [hvalues, List.map_eq_nil_iff, String.toList_eq_nil_iff] at hnil
    contradiction
  · next he => simp at he
  · next he =>
    obtain ⟨rfl, rfl⟩ := Prod.mk.inj he
    rw [hlength]
    split
    · rfl
    · rw [if_neg (by simp), hvalue]
      rfl

theorem integer?_toString {n : Nat} (h : n < 10 ^ maxDigits) :
    integer? (toString n) = some (n : Int) := by
  have hs : (toString n).toList = Nat.toDigits 10 n := by simp [Nat.toString_eq_repr]
  have hl : (toString n).length ≤ maxDigits := by
    rw [← String.length_toList, hs]
    exact (Nat.length_toDigits_le_iff (by decide) (by decide)).2 h
  have hne : toString n ≠ "" := by
    rw [ne_eq, ← String.toList_eq_nil_iff, hs]
    exact Nat.toDigits_ne_nil
  rw [integer?_digits hne fun c => isDigit_of_mem_toString, if_neg (Nat.not_lt.2 hl), hs,
    Nat.ofDigitChars_ten_toDigits]

end Numeral

end Macros
