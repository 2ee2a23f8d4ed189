import Macros.Tree.FreeName

/-!
The search for a free name passes over taken names only and ends at one that is free. Trimming the name
found changes it only where the search began at the empty name, the one whose variants begin with
a blank.
-/

namespace Macros

namespace Text

/-! What holds of every character of a text is decided along the text, not for all characters there are. -/

instance (priority := high) decidableForallMem {s : List Char} {p : Char → Prop} [DecidablePred p] :
    Decidable (∀ c ∈ s, p c) :=
  List.decidableBAll p s

instance (priority := high) decidableForallMemOption {o : Option Char} {p : Char → Prop}
    [DecidablePred p] : Decidable (∀ c ∈ o, p c) :=
  Option.decidableForallMem o

/-! Trimming. -/

theorem trimStartChars_eq (s : List Char) (h : ∀ c ∈ s.head?, isBlank c = false) :
    trimStartChars s = s := by
  cases s with
  | nil => rfl
  | cons c s => simp [trimStartChars, h c rfl]

theorem trimEndChars_eq (s : List Char) (h : ∀ c ∈ s.getLast?, isBlank c = false) :
    trimEndChars s = s := by
  have h' : ∀ c ∈ s.reverse.head?, isBlank c = false := by rwa [List.head?_reverse]
  rw [trimEndChars, ← trimStartChars, trimStartChars_eq _ h', List.reverse_reverse]

theorem first_dropWhile (s : List Char) : ∀ c ∈ (s.dropWhile isBlank).head?, isBlank c = false := by
  intro c hc
  have h := List.head?_dropWhile_not isBlank s
  rwa [hc] at h

theorem trimEndChars_prefix (s : List Char) : trimEndChars s <+: s := by
  have h := List.reverse_prefix.2 (List.dropWhile_suffix isBlank (l := s.reverse))
  rwa [List.reverse_reverse] at h

/-- A text that is trimmed begins with no blank and ends with none. -/
structure Trimmed (s : List Char) : Prop where
  first : ∀ c ∈ s.head?, isBlank c = false
  last : ∀ c ∈ s.getLast?, isBlank c = false

theorem Trimmed.trim_eq {s : String} (h : Trimmed s.toList) : trim s = s := by
  rw [trim, trimChars, trimStartChars_eq _ h.first, trimEndChars_eq _ h.last, String.ofList_toList]

theorem trimmed_trim (s : String) : Trimmed (trim s).toList := by
  rw [trim, String.toList_ofList, trimChars]
  constructor
  · intro c hc
    obtain ⟨r, hr⟩ := trimEndChars_prefix (trimStartChars s.toList)
    refine first_dropWhile s.toList c ?_
    rw [← trimStartChars, ← hr, List.head?_append, hc]
    rfl
  · rw [trimEndChars, List.getLast?_reverse]
    exact first_dropWhile _

end Text

namespace FreeName

/-- The stem of the variants of a name, and the number of the first of them. -/
def base (name : String) : String × Nat :=
  match suffix? name.toList with
  | none => (name, 1)
  | some (stem, digits) => (String.ofList stem, Numeral.ofDigits digits + 1)

theorem digitValue?_of_isDigit {c : Char} (h : c.isDigit) :
    Text.digitValue? c = some (c.toNat - 48) := by
  have h1 : 48 ≤ c.toNat ∧ c.toNat ≤ 57 := by
    simp only [Char.isDigit, Bool.and_eq_true, decide_eq_true_eq] at h
    exact h
  have h2 : c.toNat < 128 := Nat.lt_of_le_of_lt h1.2 (by decide)
  simp [Text.digitValue?, h1, h2]

theorem isDecimal_of_mem_toDigits {k : Nat} {c : Char} (h : c ∈ Nat.toDigits 10 k) :
    Text.isDecimal c := by
  rw [Text.isDecimal,
    digitValue?_of_isDigit (Nat.isDigit_of_mem_toDigits (by decide) (by decide) h)]
  rfl

theorem foldl_digits {ds : List Char} (h : ∀ c ∈ ds, c.isDigit) (n : Nat) :
    (ds.filterMap Text.digitValue?).foldl (fun n d => 10 * n + d) n = Nat.ofDigitChars 10 ds n := by
  rw [Nat.ofDigitChars_eq_foldl]
  induction ds generalizing n with
  | nil => rfl
  | cons d ds ih =>
    rw [List.filterMap_cons_some (digitValue?_of_isDigit (h d (by simp))), List.foldl_cons,
      ih fun c hc => h c (List.mem_cons_of_mem d hc)]
    rfl

theorem ofDigits_toDigits (k : Nat) :
    Numeral.ofDigits ((Nat.toDigits 10 k).filterMap Text.digitValue?) = k := by
  rw [Numeral.ofDigits, foldl_digits, Nat.ofDigitChars_ten_toDigits]
  exact fun c hc => Nat.isDigit_of_mem_toDigits (by decide) (by decide) hc

theorem toList_numbered (stem : String) (k : Nat) :
    (numbered stem (toString k)).toList =
      stem.toList ++ ' ' :: '(' :: (Nat.toDigits 10 k ++ [')']) := by
  simp [numbered, Nat.toString_eq_repr]

/-- A name has a stem and a number just when it ends in digits in parentheses. -/
theorem suffix?_eq_some {name stem : List Char} {ds : List Nat} :
    suffix? name = some (stem, ds) ↔ ∃ digits, digits ≠ [] ∧ (∀ c ∈ digits, Text.isDecimal c) ∧
      name = stem ++ ' ' :: '(' :: (digits ++ [')']) ∧ ds = digits.filterMap Text.digitValue? := by
  constructor
  · intro h
    unfold suffix? at h
    split at h
    · next r hr =>
      split at h
      · next d rs rest hd hs =>
        obtain ⟨rfl, rfl⟩ := Prod.mk.inj (Option.some.inj h)
        have hall := List.all_takeWhile (p := Text.isDecimal) (l := r)
        rw [hd] at hall
        have hname : name.reverse = ')' :: (d :: rs ++ '(' :: ' ' :: rest) := by
          rw [hr, ← hd, ← hs, List.takeWhile_append_dropWhile]
        refine ⟨(d :: rs).reverse, by simp, fun c hc => ?_, ?_, rfl⟩
        · exact List.all_eq_true.1 hall c (List.mem_reverse.1 hc)
        · rw [← List.reverse_reverse name, hname]
          simp
      · contradiction
    · contradiction
  · rintro ⟨digits, hne, hdigits, rfl, rfl⟩
    have hr : (stem ++ ' ' :: '(' :: (digits ++ [')'])).reverse =
        ')' :: (digits.reverse ++ '(' :: ' ' :: stem.reverse) := by simp
    have hd : ∀ c ∈ digits.reverse, Text.isDecimal c := fun c hc => hdigits c (List.mem_reverse.1 hc)
    have hopen : Text.isDecimal '(' = false := by decide
    rw [suffix?, hr]
    simp only
    rw [List.takeWhile_append_of_pos hd, List.dropWhile_append_of_pos hd,
      List.takeWhile_cons_of_neg (by simp [hopen]), List.dropWhile_cons_of_neg (by simp [hopen]),
      List.append_nil]
    cases hk : digits.reverse with
    | nil => exact absurd (List.reverse_eq_nil_iff.1 hk) hne
    | cons d ds =>
      simp only
      rw [← hk, List.reverse_reverse, List.reverse_reverse]

/-- The number of a variant is read as it was written. -/
theorem suffix?_numbered (stem : String) (k : Nat) :
    suffix? (numbered stem (toString k)).toList =
      some (stem.toList, (Nat.toDigits 10 k).filterMap Text.digitValue?) :=
  suffix?_eq_some.2 ⟨_, Nat.toDigits_ne_nil, fun _ => isDecimal_of_mem_toDigits,
    toList_numbered stem k, rfl⟩

theorem base_numbered (stem : String) (k : Nat) :
    base (numbered stem (toString k)) = (stem, k + 1) := by
  rw [base, suffix?_numbered]
  dsimp only
  rw [String.ofList_toList, ofDigits_toDigits]

theorem advance_ok {name next : String} (h : advance name = .ok next) :
    next = numbered (base name).1 (toString (base name).2) := by
  unfold advance at h
  unfold base
  cases hs : suffix? name.toList with
  | none =>
    have hone : toString 1 = "1" := by decide
    simp only [hs, Except.ok.injEq] at h
    rw [← h, ← hone]
  | some p =>
    simp only [hs] at h
    split at h
    · contradiction
    · unfold Numeral.writeNat at h
      split at h
      · simp [Except.map] at h
      · exact (Except.ok.inj h).symm

/-- The variants of a name differ from it. -/
theorem ne_numbered {name : String} {k : Nat} (hk : (base name).2 ≤ k) :
    numbered (base name).1 (toString k) ≠ name := by
  intro he
  have := base_numbered (base name).1 k
  rw [he] at this
  rw [this] at hk
  exact absurd hk (Nat.not_succ_le_self k)

/-- A variant of a name is found that is free, after others that are not. -/
structure Found (taken : List String) (name free : String) (k : Nat) : Prop where
  start : (base name).2 ≤ k
  eq : free = numbered (base name).1 (toString k)
  name_taken : name ∈ taken
  free : free ∉ taken
  passed : ∀ j, (base name).2 ≤ j → j < k → numbered (base name).1 (toString j) ∈ taken

theorem firstFree_ok {taken : List String} {name free : String}
    (h : firstFree taken name = .ok free) :
    (name ∉ taken ∧ free = name) ∨ ∃ k, Found taken name free k := by
  induction taken, name using firstFree.induct with
  | case1 taken name hm e he =>
    rw [firstFree, dif_pos hm, he] at h
    contradiction
  | case2 taken name hm next hn ih =>
    rw [firstFree, dif_pos hm, hn] at h
    have hnext := advance_ok hn
    have hbase : base next = ((base name).1, (base name).2 + 1) := by rw [hnext, base_numbered]
    have hne : ∀ k, (base name).2 ≤ k → numbered (base name).1 (toString k) ∉ taken.erase name →
        numbered (base name).1 (toString k) ∉ taken := fun k hk ht =>
      mt (List.mem_erase_of_ne (ne_numbered hk)).2 ht
    rcases ih h with ⟨hfree, rfl⟩ | ⟨k, hk⟩
    · refine .inr ⟨(base name).2, Nat.le_refl _, hnext, hm, ?_, fun j h1 h2 => absurd h2 (by omega)⟩
      rw [hnext] at hfree ⊢
      exact hne _ (Nat.le_refl _) hfree
    · have hstart : (base name).2 + 1 ≤ k := by simpa [hbase] using hk.start
      have heq : free = numbered (base name).1 (toString k) := by simpa [hbase] using hk.eq
      refine .inr ⟨k, by omega, heq, hm, ?_, fun j h1 h2 => ?_⟩
      · have hf := hk.free
        rw [heq] at hf ⊢
        exact hne k (by omega) hf
      · rcases Nat.eq_or_lt_of_le h1 with rfl | h1
        · rw [← hnext]
          exact List.mem_of_mem_erase hk.name_taken
        · have := hk.passed j (by rw [hbase]; exact h1) h2
          rw [hbase] at this
          exact List.mem_of_mem_erase this
  | case3 taken name hm =>
    rw [firstFree, dif_neg hm] at h
    exact .inl ⟨hm, (Except.ok.inj h).symm⟩

/-! Trimming the name that is found. -/

/-- The stem of a trimmed name begins as the name does. -/
theorem first_base {name : String} (h : Text.Trimmed name.toList) (hne : name ≠ "") :
    ∃ c s, (base name).1.toList = c :: s ∧ Text.isBlank c = false := by
  cases hn : name.toList with
  | nil => exact absurd (String.toList_eq_nil_iff.1 hn) hne
  | cons c s =>
    have hc : Text.isBlank c = false := h.first c (by rw [hn]; rfl)
    rw [base]
    cases hs : suffix? name.toList with
    | none => exact ⟨c, s, hn, hc⟩
    | some p =>
      obtain ⟨stem, ds⟩ := p
      obtain ⟨digits, -, -, hrest, -⟩ := suffix?_eq_some.1 hs
      cases stem with
      | nil =>
        -- then the name would begin with the blank before the parenthesis
        rw [hn] at hrest
        obtain ⟨rfl, -⟩ := List.cons.inj hrest
        exact absurd hc (by decide)
      | cons d stem =>
        rw [hn] at hrest
        obtain ⟨rfl, -⟩ := List.cons.inj hrest
        exact ⟨c, stem, String.toList_ofList, hc⟩

theorem trimmed_numbered {name : String} (h : Text.Trimmed name.toList) (hne : name ≠ "") (k : Nat) :
    Text.Trimmed (numbered (base name).1 (toString k)).toList := by
  obtain ⟨c, s, hs, hc⟩ := first_base h hne
  rw [toList_numbered, hs]
  constructor
  · simpa using hc
  · have hclose : Text.isBlank ')' = false := by decide
    rw [← List.cons_append, ← List.cons_append, ← List.append_assoc, List.getLast?_concat]
    simpa using hclose

theorem trim_numbered_empty (k : Nat) :
    Text.trim (numbered "" (toString k)) = "(" ++ toString k ++ ")" := by
  have hs : ("(" ++ toString k ++ ")").toList = '(' :: (Nat.toDigits 10 k ++ [')']) := by
    simp [Nat.toString_eq_repr]
  have ht : Text.Trimmed ("(" ++ toString k ++ ")").toList := by
    rw [hs]
    constructor
    · simp only [List.head?_cons, Option.mem_def, Option.some.injEq, forall_eq']
      decide
    · rw [← List.cons_append, List.getLast?_concat]
      simp only [Option.mem_def, Option.some.injEq, forall_eq']
      decide
  have hblank : (numbered "" (toString k)).toList = ' ' :: ("(" ++ toString k ++ ")").toList := by
    rw [toList_numbered, hs]
    rfl
  rw [Text.trim, hblank, Text.trimChars, Text.trimStartChars, List.dropWhile_cons_of_pos (by decide)]
  exact ht.trim_eq

end FreeName

end Macros
