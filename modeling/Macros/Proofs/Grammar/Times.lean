import Macros.Proofs.Grammar.Values
import Macros.Proofs.Number.Brief

/-!
The tags for times. A wait and a limit are always written as one tag, but in brief form, so the tag is read
as the same time just if six digits are enough; and since a range is cut at its first minus, the shortest
wait must not be so short that it is written with an exponent.
-/

namespace Macros

open Binary64 Decimal

namespace Span

/-! Reading spans. -/

theorem cut_plain {s : List Char} (h : '-' ∉ s) : cut s = (s, none) := by
  have hall : s.dropWhile (· != '-') = [] := by
    rw [List.dropWhile_eq_nil_iff]
    rintro c hc
    simp only [bne_iff_ne, ne_eq]
    rintro rfl
    exact h hc
  rw [cut, hall]

theorem cut_minus {front : List Char} (h : '-' ∉ front) (back : List Char) :
    cut (front ++ '-' :: back) = (front, some back) := by
  have hfront : ∀ c ∈ front, (c != '-') = true := by
    rintro c hc
    simp only [bne_iff_ne, ne_eq]
    rintro rfl
    exact h hc
  rw [cut, List.dropWhile_append_of_pos hfront, List.dropWhile_cons_of_neg (by simp),
    List.takeWhile_append_of_pos hfront, List.takeWhile_cons_of_neg (by simp), List.append_nil]

/-- The text before the first minus has no minus. -/
theorem cut_front (s : List Char) : '-' ∉ (cut s).1 := by
  by_cases h : '-' ∈ s
  · obtain ⟨front, back, rfl, hfront⟩ := List.eq_append_cons_of_mem h
    rw [cut_minus hfront]
    exact hfront
  · rwa [cut_plain h]

theorem check_ok {text : String} {low high : Binary64} (hl : low.lt .zero = false)
    (hh : high.lt low = false) : read.check text low high = .ok ⟨low, high⟩ := by
  rw [read.check, hl, hh]
  rfl

theorem check_inv {text : String} {low high : Binary64} {p : Span}
    (h : read.check text low high = .ok p) :
    p = ⟨low, high⟩ ∧ low.lt .zero = false ∧ high.lt low = false := by
  unfold read.check at h
  split at h
  · contradiction
  · next hc =>
    rw [Bool.or_eq_true, not_or, Bool.not_eq_true, Bool.not_eq_true] at hc
    exact ⟨(Except.ok.inj h).symm, hc⟩

/-- What a span says of its ends: neither was read as a negative number. -/
structure Ordered (p : Span) : Prop where
  low : p.low = .nan ∨ p.low.Nonnegative
  lowRange : p.low.InRange
  highRange : p.high.InRange
  notNegative : p.low.lt .zero = false
  ordered : p.high.lt p.low = false

theorem ordered_of_read {raw : String} {p : Span} (h : Span.read raw = .ok p) : p.Ordered := by
  have hfront := cut_front (Text.trim raw).toList
  unfold Span.read at h
  dsimp only at h
  split at h
  · nomatch h
  · generalize cut (Text.trim raw).toList = parts at h hfront
    obtain ⟨front, back⟩ := parts
    dsimp only at h hfront
    split at h
    · nomatch h
    · next low hlow =>
      have hsign := Numeral.number?_nonnegative (by rwa [String.toList_ofList]) hlow
      split at h
      · obtain ⟨rfl, hl, hh⟩ := check_inv h
        exact ⟨hsign, Numeral.number?_inRange hlow, Numeral.number?_inRange hlow, hl, hh⟩
      · split at h
        · nomatch h
        · next high hhigh =>
          obtain ⟨rfl, hl, hh⟩ := check_inv h
          exact ⟨hsign, Numeral.number?_inRange hlow, Numeral.number?_inRange hhigh, hl, hh⟩

/-- If the ends differ, the upper one is not negative either. -/
theorem Ordered.high {p : Span} (h : p.Ordered) (hlow : p.low ≠ .nan) (hhigh : p.high ≠ .nan)
    (hne : p.low.eq p.high = false) : p.high.Nonnegative := by
  obtain ⟨low, high⟩ := p
  obtain ⟨hl, -, -, hneg, ho⟩ := h
  dsimp only at hl hneg ho hlow hhigh hne ⊢
  cases high with
  | nan => exact absurd rfl hhigh
  | infinite s =>
    cases s with
    | false => exact .inl rfl
    | true =>
      rcases hl.resolve_left hlow with rfl | ⟨u, rfl⟩ <;> simp [Binary64.lt] at ho
  | finite s u =>
    cases s with
    | false => exact .inr ⟨u, rfl⟩
    | true =>
      rcases hl.resolve_left hlow with rfl | ⟨v, rfl⟩
      · simp [Binary64.lt] at ho
      · simp only [Binary64.lt, Binary64.eq, signed, decide_eq_false_iff_not, if_true,
          Bool.false_eq_true, if_false] at ho hne
        omega

/-! Reading what is written in brief. -/

theorem brief_noBlank {x : Binary64} (hrange : x.InRange) :
    ∀ c ∈ (brief x).toList, Text.isBlank c = false ∧ Tag.isValueChar c := by
  intro c hc
  rcases brief_chars hrange c hc with h | h
  · have hd := Numeral.isDigit_iff.1 h
    have hne : ∀ d : Char, d.isDigit = false → c ≠ d := by
      rintro d hd' rfl
      rw [h] at hd'
      contradiction
    refine ⟨?_, ?_⟩
    · have hpad := Numeral.not_padding_of_isDigit h
      rw [Bool.eq_false_iff]
      intro hb
      have := Text.isBlank_iff.1 hb
      omega
    · simp [Tag.isValueChar, hne '<' (by decide), hne '>' (by decide)]
  · have hsigns : ∀ c ∈ ['.', 'e', '+', '-', 'i', 'n', 'f', 'a'],
        Text.isBlank c = false ∧ Tag.isValueChar c := by decide
    exact hsigns c h

theorem brief_ne_empty {x : Binary64} (hrange : x.InRange) (hx : x.Nonnegative) :
    (brief x).toList ≠ [] := by
  rcases hx with rfl | ⟨u, rfl⟩
  · decide
  · by_cases hu : u = 0
    · subst hu
      decide
    · have hdigits : (significant 5 u).digits ≠ 0 := by
        have := (digits_bounds hu (hrange _ _ rfl)).1
        omega
      obtain ⟨whole, fraction, exponent, hw, hs⟩ := write_shows hdigits
      rw [brief_finite hu, String.toList_ofList, hw, Numeral.numeral]
      simp [hs.nonempty]

theorem read_noBlank {s : List Char} (hs : ∀ c ∈ s, Text.isBlank c = false) (hne : s ≠ []) :
    Text.trim (String.ofList s) = String.ofList s ∧ (String.ofList s).isEmpty = false := by
  have hword : Text.Word s := ⟨hne, hs⟩
  have htrim : Text.Trimmed (String.ofList s).toList := by
    rw [String.toList_ofList]
    exact hword.trimmed
  refine ⟨htrim.trim_eq, ?_⟩
  rw [Bool.eq_false_iff, ne_eq, String.isEmpty_iff]
  intro he
  exact hne (by rw [← String.toList_ofList (l := s), he]; rfl)

theorem read_plain {s : List Char} (hs : ∀ c ∈ s, Text.isBlank c = false) (hne : s ≠ [])
    (hminus : '-' ∉ s) {x : Binary64} (hx : Numeral.number? (String.ofList s) = some x) :
    Span.read (String.ofList s) = read.check (String.ofList s) x x := by
  obtain ⟨htrim, hempty⟩ := read_noBlank hs hne
  simp only [Span.read, htrim, hempty, Bool.false_eq_true, if_false, String.toList_ofList,
    cut_plain hminus, hx]

theorem read_range {front back : List Char} (hs : ∀ c ∈ front ++ '-' :: back, Text.isBlank c = false)
    (hminus : '-' ∉ front) {x y : Binary64} (hx : Numeral.number? (String.ofList front) = some x)
    (hy : Numeral.number? (String.ofList back) = some y) :
    Span.read (String.ofList (front ++ '-' :: back)) =
      read.check (String.ofList (front ++ '-' :: back)) x y := by
  obtain ⟨htrim, hempty⟩ := read_noBlank hs (by simp)
  simp only [Span.read, htrim, hempty, Bool.false_eq_true, if_false, String.toList_ofList,
    cut_minus hminus, hx, hy]

/-- What stands before the first minus has to be a number. -/
theorem read_cut {front back : List Char} (hs : ∀ c ∈ front ++ '-' :: back, Text.isBlank c = false)
    (hminus : '-' ∉ front) (hx : Numeral.number? (String.ofList front) = none) :
    ∃ e, Span.read (String.ofList (front ++ '-' :: back)) = .error e := by
  obtain ⟨htrim, hempty⟩ := read_noBlank hs (by simp)
  exact ⟨_, by simp only [Span.read, htrim, hempty, Bool.false_eq_true, if_false, String.toList_ofList,
    cut_minus hminus, hx]; rfl⟩

/-- A span that six digits are enough for, and that is not so short that it needs an exponent. -/
def Kept (p : Span) : Prop := p.low.SixDigits ∧ p.high.SixDigits ∧ p.low.Positional

theorem same_toValue (p q : Span) :
    p.toValue.same q.toValue = (p.low.eq q.low && p.high.eq q.high) := by
  -- behind the ends nothing is left to compare
  rw [← Bool.and_true (p.high.eq q.high)]
  rfl

/-- A single time that six digits are enough for is the same at the other end of the span. -/
theorem sixDigits_high {p : Span} (hlow : p.low.Nonnegative) (heq : p.low.eq p.high = true)
    (h : p.low.SixDigits) : p.high.SixDigits := by
  obtain ⟨n, e, hn, he⟩ := h
  rw [ofDecimal_eq, (rounded_nonnegative _).eq_iff hlow] at he
  exact ⟨n, e, hn, by rw [ofDecimal_eq, he, heq]⟩

/-- A single time is read back just if it is kept. -/
theorem read_single_iff {p : Span} (h : p.Ordered) (hlow : p.low.Nonnegative)
    (heq : p.low.eq p.high = true) :
    (∃ q, Span.read (brief p.low) = .ok q ∧ q.toValue.same p.toValue = true) ↔ p.Kept := by
  obtain ⟨y, hy, hyn, hiff⟩ := number?_brief h.lowRange hlow
  have hblank := fun c hc => (brief_noBlank h.lowRange c hc).1
  have hne := brief_ne_empty h.lowRange hlow
  have hminus := minus_mem_brief h.lowRange hlow
  have hof : String.ofList (brief p.low).toList = brief p.low := String.ofList_toList
  by_cases hm : '-' ∈ (brief p.low).toList
  · refine iff_of_false ?_ fun hkept => (hminus hkept.1).1 hm hkept.2.2
    rintro ⟨q, hq, -⟩
    obtain ⟨front, back, hfront, hfm, hnone⟩ := brief_cut h.lowRange hlow hm
    rw [hfront] at hblank hof
    obtain ⟨e, he⟩ := read_cut hblank hfm hnone
    rw [← hof, he] at hq
    nomatch hq
  · have hread := read_plain hblank hne hm (hof.symm ▸ hy)
    rw [hof, check_ok hyn.not_lt_zero hyn.lt_irrefl] at hread
    constructor
    · rintro ⟨q, hq, hsame⟩
      obtain rfl := Except.ok.inj (hread.symm.trans hq)
      rw [same_toValue, Bool.and_eq_true, hyn.eq_iff hlow] at hsame
      have hsix := hiff.1 hsame.1
      exact ⟨hsix, sixDigits_high hlow heq hsix, not_not.1 fun hp => hm ((hminus hsix).2 hp)⟩
    · intro hkept
      obtain rfl := hiff.2 hkept.1
      refine ⟨_, hread, ?_⟩
      rw [same_toValue, heq, (hyn.eq_iff hyn).2 rfl]
      rfl

/-- A range is read back just if it is kept. -/
theorem read_range_iff {p : Span} (h : p.Ordered) (hlow : p.low.Nonnegative)
    (hhigh : p.high.Nonnegative) :
    (∃ q, Span.read (brief p.low ++ "-" ++ brief p.high) = .ok q ∧
      q.toValue.same p.toValue = true) ↔ p.Kept := by
  obtain ⟨y, hy, hyn, hyiff⟩ := number?_brief h.lowRange hlow
  obtain ⟨z, hz, hzn, hziff⟩ := number?_brief h.highRange hhigh
  have hminus := minus_mem_brief h.lowRange hlow
  have hof : brief p.low ++ "-" ++ brief p.high =
      String.ofList ((brief p.low).toList ++ '-' :: (brief p.high).toList) := by
    rw [← String.toList_inj]
    simp
  have hblank : ∀ c ∈ (brief p.low).toList ++ '-' :: (brief p.high).toList, Text.isBlank c = false := by
    intro c hc
    rcases List.mem_append.1 hc with hc | hc
    · exact (brief_noBlank h.lowRange c hc).1
    · rcases List.mem_cons.1 hc with rfl | hc
      · decide
      · exact (brief_noBlank h.highRange c hc).1
  rw [hof]
  by_cases hm : '-' ∈ (brief p.low).toList
  · refine iff_of_false ?_ fun hkept => (hminus hkept.1).1 hm hkept.2.2
    rintro ⟨q, hq, -⟩
    obtain ⟨front, back, hfront, hfm, hnone⟩ := brief_cut h.lowRange hlow hm
    rw [hfront, List.append_assoc, List.cons_append] at hblank hq
    obtain ⟨e, he⟩ := read_cut hblank hfm hnone
    rw [he] at hq
    nomatch hq
  · rw [← String.ofList_toList (s := brief p.low)] at hy
    rw [← String.ofList_toList (s := brief p.high)] at hz
    rw [read_range hblank hm hy hz]
    constructor
    · rintro ⟨q, hq, hsame⟩
      obtain ⟨rfl, -, -⟩ := check_inv hq
      rw [same_toValue, Bool.and_eq_true, hyn.eq_iff hlow, hzn.eq_iff hhigh] at hsame
      have hsix := hyiff.1 hsame.1
      exact ⟨hsix, hziff.1 hsame.2, not_not.1 fun hp => hm ((hminus hsix).2 hp)⟩
    · rintro ⟨hlowSix, hhighSix, -⟩
      obtain rfl := hyiff.2 hlowSix
      obtain rfl := hziff.2 hhighSix
      refine ⟨_, check_ok h.notNegative h.ordered, ?_⟩
      rw [same_toValue, (hyn.eq_iff hyn).2 rfl, (hzn.eq_iff hzn).2 rfl]
      rfl

end Span

namespace ModifierGrammar

/-- The tag of a value is read as the same value. -/
def ReadsBack (g : ModifierGrammar) (v : Value) (b : Tag) : Prop :=
  ∃ w, g.read b.value = .ok w ∧ w.same v = true

theorem wait_readsBack {b : Tag} {value : String} (hb : b.value = some value) (p : Span) :
    wait.ReadsBack p.toValue b ↔
      ∃ q, Span.read value = .ok q ∧ q.toValue.same p.toValue = true := by
  rw [ReadsBack, hb]
  simp only [read, readWait]
  constructor
  · rintro ⟨w, hw, hsame⟩
    cases hq : Span.read value with
    | error e => simp [hq, Except.map] at hw
    | ok q =>
      obtain rfl : q.toValue = w := by simpa [hq, Except.map] using hw
      exact ⟨q, rfl, hsame⟩
  · rintro ⟨q, hq, hsame⟩
    exact ⟨q.toValue, by rw [hq]; rfl, hsame⟩

/-- A wait is written as one tag, which is read back just if the wait is kept. -/
theorem wait_renders {p : Span} (h : p.Ordered) (hlow : p.low ≠ .nan) (hhigh : p.high ≠ .nan) :
    ∃ b, wait.Renders "wait" p.toValue b ∧ (wait.ReadsBack p.toValue b ↔ p.Kept) := by
  have hl := h.low.resolve_left hlow
  have hpair : p.toValue.pair = .ok (.number p.low, .number p.high) := rfl
  have hsame : (Value.number p.low).same (.number p.high) = p.low.eq p.high := rfl
  have hlowChars := fun c hc => (Span.brief_noBlank h.lowRange c hc).2
  cases heq : p.low.eq p.high with
  | true =>
    refine ⟨⟨"wait", some (brief p.low)⟩, ⟨Tag.valid_some (by decide) (by decide) hlowChars, rfl, ?_⟩, ?_⟩
    · simp only [render, renderWait, hpair, brief_number, hsame, heq, if_true]
      rfl
    · rw [wait_readsBack rfl, Span.read_single_iff h hl heq]
  | false =>
    have hh := h.high hlow hhigh heq
    refine ⟨⟨"wait", some (brief p.low ++ "-" ++ brief p.high)⟩,
      ⟨Tag.valid_some (by decide) (by decide) ?_, rfl, ?_⟩, ?_⟩
    · intro c hc
      rw [String.toList_append, String.toList_append] at hc
      rcases List.mem_append.1 hc with hc | hc
      · rcases List.mem_append.1 hc with hc | hc
        · exact hlowChars c hc
        · have hminus : ∀ c ∈ "-".toList, Tag.isValueChar c := by decide
          exact hminus c hc
      · exact (Span.brief_noBlank h.highRange c hc).2
    · simp only [render, renderWait, hpair, brief_number, hsame, heq, Bool.false_eq_true, if_false]
      rfl
    · rw [wait_readsBack rfl, Span.read_range_iff h hl hh]

theorem nonnegative_of_positive {x : Binary64} (hx : x ≠ .nan) (h : x.le .zero = false) :
    x.Nonnegative := by
  cases x with
  | nan => exact absurd rfl hx
  | infinite s =>
    cases s with
    | false => exact .inl rfl
    | true => simp [Binary64.le, Binary64.lt, Binary64.zero] at h
  | finite s u =>
    cases s with
    | false => exact .inr ⟨u, rfl⟩
    | true =>
      simp only [Binary64.le, Binary64.lt, Binary64.eq, Binary64.zero, signed, Bool.or_eq_false_iff,
        decide_eq_false_iff_not, if_true, Bool.false_eq_true, if_false] at h
      omega

theorem readMaxWait_ok {raw : Option String} {x : Binary64} (h : readMaxWait raw = .ok x) :
    x.InRange ∧ x.le .zero = false := by
  unfold readMaxWait at h
  split at h
  · nomatch h
  · next y hy =>
    split at h
    · nomatch h
    · next hle =>
      obtain rfl := Except.ok.inj h
      exact ⟨Numeral.number?_inRange hy, by simpa using hle⟩

/-- A limit is written as one tag, which is read back just if six digits are enough. -/
theorem maxWait_renders {raw : Option String} {x : Binary64} (h : readMaxWait raw = .ok x)
    (hnan : x ≠ .nan) : ∃ b, maxWait.Renders "maxwait" (.number x) b ∧
      (maxWait.ReadsBack (.number x) b ↔ x.SixDigits) := by
  obtain ⟨hrange, hpos⟩ := readMaxWait_ok h
  have hx := nonnegative_of_positive hnan hpos
  obtain ⟨y, hy, hyn, hiff⟩ := number?_brief hrange hx
  have hsame : ∀ y : Binary64, (Value.number y).same (.number x) = y.eq x := fun _ => rfl
  refine ⟨⟨"maxwait", some (brief x)⟩, ⟨Tag.valid_some (by decide) (by decide) fun c hc =>
    (Span.brief_noBlank hrange c hc).2, rfl, ?_⟩, ?_⟩
  · simp only [render, brief_number]
    rfl
  · simp only [ReadsBack, read, readMaxWait, Option.getD_some, hy]
    constructor
    · rintro ⟨w, hw, hws⟩
      split at hw
      · simp [Except.map] at hw
      · obtain rfl : Value.number y = w := by simpa [Except.map] using hw
        rw [hsame, hyn.eq_iff hx] at hws
        exact hiff.1 hws
    · intro hsix
      obtain rfl := hiff.2 hsix
      refine ⟨.number y, ?_, ?_⟩
      · rw [hpos]
        rfl
      · rw [hsame, hyn.eq_iff hyn]

end ModifierGrammar

end Macros
