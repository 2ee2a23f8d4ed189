import Macros.Proofs.Tree.FreeName
import Macros.Text.Case
import Mathlib.Data.List.SplitBy

/-!
Small letters stay as they are when a text is put in small letters again, and putting it in small
letters brings no character that is set apart: no blank and no sign of ASCII. Both follow from
where the runs of the case table lead: never into a run, and never to a character set apart.
-/

namespace Macros.Text

/-- The code points that no small form may be: the two that have forms of their own, blanks, and the
signs of ASCII, which part and enclose what tags and settings hold. -/
def setApart : List CaseRun := [
  ⟨0x130, 0x130, 1, 0⟩, ⟨0x3A3, 0x3A3, 1, 0⟩, ⟨0, 64, 1, 0⟩, ⟨91, 96, 1, 0⟩,
  ⟨0x85, 0x85, 1, 0⟩, ⟨0xA0, 0xA0, 1, 0⟩, ⟨0x1680, 0x1680, 1, 0⟩, ⟨0x2000, 0x200A, 1, 0⟩,
  ⟨0x2028, 0x2029, 1, 0⟩, ⟨0x202F, 0x202F, 1, 0⟩, ⟨0x205F, 0x205F, 1, 0⟩, ⟨0x3000, 0x3000, 1, 0⟩]

namespace CaseRun

/-- The code points that `r` leads to are not in `q`: they lie beside it, or between its code
points. -/
def misses (r q : CaseRun) : Bool :=
  decide (r.last + r.shift < q.first) || decide (q.last < r.first + r.shift) ||
    q.stride == 2 && (r.stride == 2 || r.first == r.last) && (r.first + r.shift - q.first) % 2 == 1

/-- The code points that `r` leads to are characters. -/
def lands (r : CaseRun) : Bool :=
  decide (0 ≤ r.first + r.shift) &&
    (decide (r.last + r.shift < 0xD800) ||
      decide (0xDFFF < r.first + r.shift) && decide (r.last + r.shift < 0x110000))

theorem contains_iff {r : CaseRun} {n : Nat} :
    r.contains n ↔ r.first ≤ n ∧ n ≤ r.last ∧ (n - r.first) % r.stride = 0 := by
  simp [contains, and_assoc]

theorem misses_below {r q : CaseRun} (h : r.last + r.shift < q.first) : r.misses q := by
  simp [misses, h]

theorem misses_above {r q : CaseRun} (h : q.last < r.first + r.shift) : r.misses q := by
  simp [misses, h]

theorem misses_sound {r q : CaseRun} {n m : Nat} (h : r.misses q) (hn : r.contains n)
    (hm : (m : Int) = n + r.shift) : q.contains m = false := by
  obtain ⟨h1, h2, h3⟩ := contains_iff.1 hn
  rw [Bool.eq_false_iff]
  intro hq
  obtain ⟨h4, h5, h6⟩ := contains_iff.1 hq
  simp only [misses, Bool.or_eq_true, Bool.and_eq_true, decide_eq_true_eq, beq_iff_eq] at h
  obtain (h | h) | ⟨⟨hs, hr⟩, h⟩ := h
  · omega
  · omega
  · rw [hs] at h6
    rcases hr with hr | hr
    · rw [hr] at h3
      omega
    · omega

theorem lands_sound {r : CaseRun} {n : Nat} (h : r.lands) (hn : r.contains n) :
    ((Char.ofNat (n + r.shift).toNat).toNat : Int) = n + r.shift := by
  obtain ⟨h1, h2, -⟩ := contains_iff.1 hn
  simp only [lands, Bool.or_eq_true, Bool.and_eq_true, decide_eq_true_eq] at h
  have hv : (n + r.shift).toNat.isValidChar := by
    unfold Nat.isValidChar
    omega
  have hc : (Char.ofNat (n + r.shift).toNat).toNat = (n + r.shift).toNat := by
    rw [Char.ofNat, dif_pos hv]
    rfl
  omega

end CaseRun

/-- The least code point of some runs. -/
def lowest (qs : List CaseRun) : Nat := qs.foldr (fun q n => min q.first n) 0x110000

/-- The greatest code point of some runs. -/
def highest (qs : List CaseRun) : Nat := qs.foldr (fun q n => max q.last n) 0

theorem lowest_le {qs : List CaseRun} {q : CaseRun} (h : q ∈ qs) : lowest qs ≤ q.first := by
  induction h with
  | head qs => exact Nat.min_le_left _ _
  | tail p _ ih => exact (Nat.min_le_right _ _).trans ih

theorem le_highest {qs : List CaseRun} {q : CaseRun} (h : q ∈ qs) : q.last ≤ highest qs := by
  induction h with
  | head qs => exact Nat.le_max_left _ _
  | tail p _ ih => exact ih.trans (Nat.le_max_right _ _)

/-- The runs that no small form may be in, those that begin in the same 256 code points together. -/
def blocks : List (List CaseRun) :=
  (lowerRuns ++ setApart).splitBy fun p q => p.first / 256 == q.first / 256

theorem exists_block {q : CaseRun} (hq : q ∈ lowerRuns ++ setApart) : ∃ qs ∈ blocks, q ∈ qs := by
  rw [← List.flatten_splitBy (fun p q => p.first / 256 == q.first / 256) (lowerRuns ++ setApart)] at hq
  exact List.mem_flatten.1 hq

namespace CaseRun

/-- What `r` leads to lies apart from all of `qs`, or is not in any of them. -/
def avoids (r : CaseRun) (qs : List CaseRun) : Bool :=
  Nat.blt (r.last + r.shift).toNat (lowest qs) || Nat.blt (highest qs) (r.first + r.shift).toNat ||
    qs.all r.misses

/-- The run is the one for the ASCII capitals, or lies above them. -/
def capitals (r : CaseRun) : Bool :=
  r.first == 65 && r.last == 90 && r.stride == 1 && r.shift == 32 || Nat.ble 128 r.first

theorem avoids_sound {r q : CaseRun} {qs : List CaseRun} (h : r.avoids qs) (hq : q ∈ qs) :
    r.misses q := by
  have hlow := lowest_le hq
  have hhigh := le_highest hq
  simp only [avoids, Bool.or_eq_true, Nat.blt_eq] at h
  obtain (h | h) | h := h
  · exact misses_below (by omega)
  · exact misses_above (by omega)
  · exact List.all_eq_true.1 h q hq

end CaseRun

/-- The small forms that no run leads to, each as a run of its own. -/
def forms : List CaseRun := [105, 775, 0x3C2, 0x3C3].map fun n => ⟨n, n, 1, 0⟩

/-- What the table was checked for, run by run. All of it is one check, and what a run leads to lies
apart from nearly all blocks, so that few pairs of runs are looked at. -/
theorem lowerRuns_checked :
    ((lowerRuns ++ forms).all fun r => r.lands && blocks.all r.avoids) ∧
      lowerRuns.all fun r => r.capitals && !r.contains 304 := by
  decide +kernel

theorem lowerRuns_miss {r q : CaseRun} (hr : r ∈ lowerRuns ++ forms) (hq : q ∈ lowerRuns ++ setApart) :
    r.misses q := by
  obtain ⟨qs, hqs, hq⟩ := exists_block hq
  have h := List.all_eq_true.1 lowerRuns_checked.1 r hr
  exact CaseRun.avoids_sound (List.all_eq_true.1 (Bool.and_eq_true_iff.1 h).2 qs hqs) hq

theorem lowerRuns_land {r : CaseRun} (hr : r ∈ lowerRuns ++ forms) : r.lands :=
  (Bool.and_eq_true_iff.1 (List.all_eq_true.1 lowerRuns_checked.1 r hr)).1

/-- Of the runs, one is for the ASCII capitals; the others lie above. -/
theorem lowerRuns_ascii {r : CaseRun} (hr : r ∈ lowerRuns) :
    r.first = 65 ∧ r.last = 90 ∧ r.stride = 1 ∧ r.shift = 32 ∨ 128 ≤ r.first := by
  have h := (Bool.and_eq_true_iff.1 (List.all_eq_true.1 lowerRuns_checked.2 r hr)).1
  simpa [CaseRun.capitals, and_assoc] using h

/-- The character that has a small form of its own is in no run. -/
theorem lowerRuns_expanded {r : CaseRun} (hr : r ∈ lowerRuns) : r.contains 304 = false := by
  have h := (Bool.and_eq_true_iff.1 (List.all_eq_true.1 lowerRuns_checked.2 r hr)).2
  simpa using h

theorem capitals_mem : (⟨65, 90, 1, 32⟩ : CaseRun) ∈ lowerRuns := by
  unfold lowerRuns
  exact List.mem_cons_self

/-- No run moves the character, and it is not set apart. -/
def Settled (c : Char) : Prop := ∀ q ∈ lowerRuns ++ setApart, q.contains c.toNat = false

theorem settled_of_run {r : CaseRun} (hr : r ∈ lowerRuns ++ forms) {c : Char}
    (hc : r.contains c.toNat) : Settled (Char.ofNat (c.toNat + r.shift).toNat) := fun _ hq =>
  CaseRun.misses_sound (lowerRuns_miss hr hq) hc (CaseRun.lands_sound (lowerRuns_land hr) hc)

theorem settled_form {c : Char} (h : c.toNat ∈ [105, 775, 0x3C2, 0x3C3]) : Settled c := by
  have hr : (⟨c.toNat, c.toNat, 1, 0⟩ : CaseRun) ∈ lowerRuns ++ forms :=
    List.mem_append_right _ (List.mem_map_of_mem h)
  have hs := settled_of_run hr (CaseRun.contains_iff.2 ⟨le_rfl, le_rfl, Nat.mod_one _⟩)
  rwa [Int.add_zero, Int.toNat_natCast, Char.ofNat_toNat] at hs

theorem not_capital {c : Char} (h : ∀ q ∈ lowerRuns, q.contains c.toNat = false) :
    ¬ (65 ≤ c.toNat ∧ c.toNat ≤ 90) := by
  intro hc
  have := h _ capitals_mem
  rw [Bool.eq_false_iff] at this
  exact this (CaseRun.contains_iff.2 ⟨hc.1, hc.2, Nat.mod_one _⟩)

theorem shiftOf_eq_zero {n : Nat} (h : ∀ q ∈ lowerRuns, q.contains n = false) :
    shiftOf lowerRuns n = 0 := by
  have hf : lowerRuns.find? (·.contains n) = none := by
    rw [List.find?_eq_none]
    intro q hq
    simp [h q hq]
  rw [shiftOf, hf]

theorem lowerExpansions_lookup {n : Nat} (h : n ≠ 304) : lowerExpansions.lookup n = none := by
  have : (n == 304) = false := by simp [h]
  simp [lowerExpansions, List.lookup_cons, this]

/-- A character that no run moves is its own small form. -/
theorem lowerChar_eq {c : Char} (h : ∀ q ∈ lowerRuns, q.contains c.toNat = false)
    (hx : c.toNat ≠ 304) : lowerChar c = [c] := by
  rw [lowerChar]
  split
  · have := not_capital h
    simp only [Bool.and_eq_true, decide_eq_true_eq, this, if_false]
  · rw [mapCase, lowerExpansions_lookup hx]
    simp [shiftOf_eq_zero h]

theorem lowerChar_expanded {c : Char} (h : c.toNat = 304) :
    lowerChar c = [Char.ofNat 105, Char.ofNat 775] := by
  rw [lowerChar, mapCase, h]
  rfl

theorem lowerChar_run {r : CaseRun} (hr : r ∈ lowerRuns) {c : Char} (hc : r.contains c.toNat) :
    ∃ q ∈ lowerRuns, q.contains c.toNat ∧
      lowerChar c = [Char.ofNat (c.toNat + q.shift).toNat] := by
  obtain ⟨h1, h2, -⟩ := CaseRun.contains_iff.1 hc
  rw [lowerChar]
  split
  · next ha =>
    obtain ⟨h3, h4, -, h5⟩ | h := lowerRuns_ascii hr
    · refine ⟨r, hr, hc, ?_⟩
      rw [h5, if_pos (by simp; omega)]
      congr 2
    · omega
  · have hf : (lowerRuns.find? (·.contains c.toNat)).isSome :=
      List.find?_isSome.2 ⟨r, hr, hc⟩
    obtain ⟨q, hq⟩ := Option.isSome_iff_exists.1 hf
    have hne : c.toNat ≠ 304 := fun he => by
      rw [he, lowerRuns_expanded hr] at hc
      exact absurd hc Bool.false_ne_true
    have hqc := List.find?_some hq
    refine ⟨q, List.mem_of_find?_eq_some hq, hqc, ?_⟩
    rw [mapCase, lowerExpansions_lookup hne, shiftOf, hq]

/-- The small form of a character is the character itself or settled. -/
theorem lowerChar_cases (c : Char) :
    lowerChar c = [c] ∧ (∀ q ∈ lowerRuns, q.contains c.toNat = false) ∧ c.toNat ≠ 304 ∨
      lowerChar c ≠ [] ∧ ∀ d ∈ lowerChar c, Settled d := by
  by_cases hx : c.toNat = 304
  · rw [lowerChar_expanded hx]
    refine .inr ⟨by simp, fun d hd => ?_⟩
    simp only [List.mem_cons, List.not_mem_nil, or_false] at hd
    rcases hd with rfl | rfl
    · exact settled_form (by decide)
    · exact settled_form (by decide)
  · by_cases h : ∀ q ∈ lowerRuns, q.contains c.toNat = false
    · exact .inl ⟨lowerChar_eq h hx, h, hx⟩
    · obtain ⟨r, hr, hc⟩ : ∃ r ∈ lowerRuns, r.contains c.toNat := by simpa using h
      obtain ⟨q, hq, hqc, he⟩ := lowerChar_run hr hc
      rw [he]
      refine .inr ⟨by simp, fun d hd => ?_⟩
      obtain rfl := List.mem_singleton.1 hd
      exact settled_of_run (List.mem_append_left _ hq) hqc

/-! A text in small letters. -/

/-- Its own small form, wherever it stands. -/
def Small (c : Char) : Prop := c.toNat ≠ 0x3A3 ∧ lowerChar c = [c]

theorem Settled.small {c : Char} (h : Settled c) : Small c := by
  have hx : c.toNat ≠ 304 := by
    intro he
    have := h ⟨0x130, 0x130, 1, 0⟩ (by simp [setApart])
    rw [he] at this
    exact absurd this (by decide)
  have hs : c.toNat ≠ 0x3A3 := by
    intro he
    have := h ⟨0x3A3, 0x3A3, 1, 0⟩ (by simp [setApart])
    rw [he] at this
    exact absurd this (by decide)
  exact ⟨hs, lowerChar_eq (fun q hq => h q (List.mem_append_left _ hq)) hx⟩

theorem isBlank_iff {c : Char} : isBlank c ↔
    9 ≤ c.toNat ∧ c.toNat ≤ 13 ∨ 28 ≤ c.toNat ∧ c.toNat ≤ 32 ∨ c.toNat = 0x85 ∨ c.toNat = 0xA0 ∨
      c.toNat = 0x1680 ∨ 0x2000 ≤ c.toNat ∧ c.toNat ≤ 0x200A ∨ c.toNat = 0x2028 ∨
      c.toNat = 0x2029 ∨ c.toNat = 0x202F ∨ c.toNat = 0x205F ∨ c.toNat = 0x3000 := by
  simp [isBlank, or_assoc]

theorem setApart_of_isBlank {c : Char} (h : isBlank c) : setApart.any (·.contains c.toNat) := by
  have := isBlank_iff.1 h
  simp only [setApart, List.any_cons, List.any_nil, Bool.or_eq_true, CaseRun.contains_iff,
    Nat.mod_one, and_true]
  omega

theorem not_blank_of_settled {c : Char} (h : Settled c) : isBlank c = false := by
  rw [Bool.eq_false_iff]
  intro hb
  obtain ⟨q, hq, hc⟩ := List.any_eq_true.1 (setApart_of_isBlank hb)
  rw [h q (List.mem_append_right _ hq)] at hc
  exact Bool.false_ne_true hc

/-- What comes of one character is settled, or is that character, a small one. -/
theorem lowerAfter_cons (before : List Char) (c : Char) (s : List Char) :
    ∃ image, image ≠ [] ∧ (∀ d ∈ image, Settled d ∨ d = c ∧ Small d) ∧
      lowerAfter before (c :: s) = image ++ lowerAfter (c :: before) s := by
  refine ⟨_, ?_, ?_, rfl⟩
  · split
    · simp
    · obtain ⟨he, -⟩ | ⟨hn, -⟩ := lowerChar_cases c
      · simp [he]
      · exact hn
  · intro d hd
    split at hd
    · left
      obtain rfl := List.mem_singleton.1 hd
      split
      · exact settled_form (by decide)
      · exact settled_form (by decide)
    · next hs =>
      obtain ⟨he, -⟩ | ⟨-, hc⟩ := lowerChar_cases c
      · rw [he] at hd
        obtain rfl := List.mem_singleton.1 hd
        exact .inr ⟨rfl, hs, he⟩
      · exact .inl (hc d hd)

theorem mem_lowerAfter {before s : List Char} {d : Char} (h : d ∈ lowerAfter before s) :
    Settled d ∨ d ∈ s ∧ Small d := by
  induction s generalizing before with
  | nil => exact absurd h List.not_mem_nil
  | cons c s ih =>
    obtain ⟨image, -, himage, he⟩ := lowerAfter_cons before c s
    rw [he, List.mem_append] at h
    rcases h with h | h
    · obtain hd | ⟨rfl, hd⟩ := himage d h
      · exact .inl hd
      · exact .inr ⟨List.mem_cons_self, hd⟩
    · exact (ih h).imp_right (And.imp_left (List.mem_cons_of_mem c))

theorem small_of_mem_lowerChars {s : List Char} {d : Char} (h : d ∈ lowerChars s) : Small d :=
  (mem_lowerAfter h).elim Settled.small And.right

theorem not_settled {d : Char} (hd : setApart.any (·.contains d.toNat)) : ¬Settled d := fun hs => by
  obtain ⟨q, hq, hc⟩ := List.any_eq_true.1 hd
  rw [hs q (List.mem_append_right _ hq)] at hc
  exact absurd hc Bool.false_ne_true

/-- What is set apart comes into the small letters from the text alone. -/
theorem mem_of_mem_lowerAfter {before s : List Char} {d : Char} (h : d ∈ lowerAfter before s)
    (hd : setApart.any (·.contains d.toNat)) : d ∈ s :=
  (mem_lowerAfter h).elim (fun hs => absurd hs (not_settled hd)) And.left

theorem mem_of_mem_lowerChars {s : List Char} {d : Char} (h : d ∈ lowerChars s)
    (hd : setApart.any (·.contains d.toNat)) : d ∈ s :=
  mem_of_mem_lowerAfter h hd

theorem lowerAfter_small_cons {before s : List Char} {c : Char} (h : Small c) :
    lowerAfter before (c :: s) = c :: lowerAfter (c :: before) s := by
  show (if c.toNat = 0x3A3 then _ else lowerChar c) ++ _ = _
  rw [if_neg h.1, h.2]
  rfl

/-- What is set apart stands behind the first of the small letters only if it stands behind the first
character. -/
theorem mem_tail_lowerAfter {before s : List Char} {d : Char} (h : d ∈ (lowerAfter before s).tail)
    (hd : setApart.any (·.contains d.toNat)) : d ∈ s.tail := by
  cases s with
  | nil => exact absurd h List.not_mem_nil
  | cons c s =>
    by_cases hc : Small c
    · rw [lowerAfter_small_cons hc] at h
      exact mem_of_mem_lowerAfter h hd
    · obtain ⟨image, -, himage, he⟩ := lowerAfter_cons before c s
      have hs : ∀ e ∈ image, Settled e := fun e hm => (himage e hm).resolve_right fun hx => hc (hx.1 ▸ hx.2)
      rw [he] at h
      rcases List.mem_append.1 (List.mem_of_mem_tail h) with hm | hm
      · exact absurd (hs d hm) (not_settled hd)
      · exact mem_of_mem_lowerAfter hm hd

theorem lowerAfter_small {before s : List Char} (h : ∀ c ∈ s, Small c) :
    lowerAfter before s = s := by
  induction s generalizing before with
  | nil => rfl
  | cons c s ih =>
    rw [lowerAfter_small_cons (h c List.mem_cons_self), ih fun d hd => h d (List.mem_cons_of_mem c hd)]

theorem lowerChars_lowerChars (s : List Char) : lowerChars (lowerChars s) = lowerChars s :=
  lowerAfter_small fun _ => small_of_mem_lowerChars

@[simp] theorem lower_lower (s : String) : lower (lower s) = lower s := by
  simp [lower, lowerChars_lowerChars]

/-! The ends of a text. -/

theorem head_lowerAfter {before s : List Char} {d : Char} (h : d ∈ (lowerAfter before s).head?) :
    Settled d ∨ d ∈ s.head? := by
  cases s with
  | nil => cases h
  | cons c s =>
    obtain ⟨image, hn, himage, he⟩ := lowerAfter_cons before c s
    rw [he, List.head?_append, Option.or_of_isSome (List.isSome_head?.2 hn)] at h
    exact (himage d (List.mem_of_mem_head? h)).imp_right fun hd => by simp [hd.1]

theorem first_lowerAfter {before s : List Char} (h : ∀ c ∈ s.head?, isBlank c = false) :
    ∀ d ∈ (lowerAfter before s).head?, isBlank d = false := fun d hd =>
  (head_lowerAfter hd).elim not_blank_of_settled (h d)

theorem last_lowerAfter {before s : List Char} (h : ∀ c ∈ s.getLast?, isBlank c = false) :
    ∀ d ∈ (lowerAfter before s).getLast?, isBlank d = false := by
  induction s generalizing before with
  | nil =>
    intro d hd
    cases hd
  | cons c s ih =>
    intro d hd
    obtain ⟨image, hn, himage, he⟩ := lowerAfter_cons before c s
    rw [he] at hd
    cases s with
    | nil =>
      rw [show lowerAfter (c :: before) [] = [] from rfl, List.append_nil] at hd
      obtain hs | ⟨rfl, -⟩ := himage d (List.mem_of_mem_getLast? hd)
      · exact not_blank_of_settled hs
      · exact h d rfl
    | cons e s =>
      obtain ⟨image', hn', -, he'⟩ := lowerAfter_cons (c :: before) e s
      have hne : lowerAfter (c :: before) (e :: s) ≠ [] := by simp [he', hn']
      rw [List.getLast?_append, Option.or_of_isSome (List.getLast?_isSome.2 hne)] at hd
      exact ih (by simpa using h) d hd

theorem Trimmed.lowerChars {s : List Char} (h : Trimmed s) : Trimmed (lowerChars s) :=
  ⟨first_lowerAfter h.first, last_lowerAfter h.last⟩

end Macros.Text
