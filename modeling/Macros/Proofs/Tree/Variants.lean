import Macros.Proofs.Number.Numerals
import Macros.Proofs.Tree.Names
import Mathlib.Data.Finset.Preimage
import Mathlib.Data.Fintype.EquivFin

/-!
The names that are tried for a name, and the first of them that is free. A name that ends in a number is
counted on from that number, whatever script its digits are of. Only a number with more digits than a
numeral may have is not counted on from, nor to.
-/

namespace Macros

namespace FreeName

/-- The name ends in a number in parentheses. -/
structure Numbered (name stem : String) (digits : List Char) : Prop where
  eq : name = numbered stem (String.ofList digits)
  ne_nil : digits ≠ []
  decimal : ∀ c ∈ digits, Text.isDecimal c

/-- The number that digits stand for. -/
def value (digits : List Char) : Nat := Numeral.ofDigits (digits.filterMap Text.digitValue?)

/-- The names that are tried for a name, in this order. -/
structure Variants (name : String) (s : Nat → String) : Prop where
  first : s 0 = name
  counted : ∀ stem digits, Numbered name stem digits →
    ∀ j, 1 ≤ j → s j = numbered stem (toString (value digits + j))
  plain : (∀ stem digits, ¬Numbered name stem digits) →
    ∀ j, 1 ≤ j → s j = numbered name (toString j)

/-- If the name ends in a number, that has no more digits than a numeral may have. -/
def Short (name : String) : Prop :=
  ∀ stem digits, Numbered name stem digits → digits.length ≤ Numeral.maxDigits

variable {name stem : String} {digits : List Char} {m : Nat}

theorem Numbered.suffix? (h : Numbered name stem digits) :
    suffix? name.toList = some (stem.toList, digits.filterMap Text.digitValue?) :=
  suffix?_eq_some.2 ⟨digits, h.ne_nil, h.decimal, by simp [h.eq, numbered], rfl⟩

theorem exists_numbered {stem : List Char} {ds : List Nat}
    (h : FreeName.suffix? name.toList = some (stem, ds)) :
    ∃ digits, Numbered name (String.ofList stem) digits ∧ ds = digits.filterMap Text.digitValue? := by
  obtain ⟨digits, hne, hdecimal, hname, rfl⟩ := suffix?_eq_some.1 h
  refine ⟨digits, ⟨?_, hne, hdecimal⟩, rfl⟩
  rw [← String.toList_inj, hname]
  simp [numbered]

theorem Numbered.base (h : Numbered name stem digits) : base name = (stem, value digits + 1) := by
  rw [FreeName.base, h.suffix?]
  dsimp only
  rw [String.ofList_toList, value]

theorem base_of_not_numbered (h : ∀ stem digits, ¬Numbered name stem digits) :
    base name = (name, 1) := by
  rw [base]
  cases hs : FreeName.suffix? name.toList with
  | none => rfl
  | some p =>
    obtain ⟨digits, hn, -⟩ := exists_numbered hs
    exact absurd hn (h _ _)

theorem numbered_numbered (stem : String) (k : Nat) :
    Numbered (numbered stem (toString k)) stem (Nat.toDigits 10 k) where
  eq := by rw [Nat.toString_eq_repr, ← Nat.toList_repr, String.ofList_toList]
  ne_nil := Nat.toDigits_ne_nil
  decimal _ := isDecimal_of_mem_toDigits

/-- A name ends in one number at most. -/
theorem Numbered.digits_eq (h : Numbered name stem digits) {stem' : String} {digits' : List Char}
    (h' : Numbered name stem' digits') : digits' = digits := by
  have hs : numbered stem (String.ofList digits) = numbered stem' (String.ofList digits') :=
    h.eq.symm.trans h'.eq
  have hr := congrArg (fun s => (s.toList.reverse.drop 1).takeWhile Text.isDecimal) hs
  have hopen : Text.isDecimal '(' = false := by decide
  have htake : ∀ {ds : List Char} {s : List Char}, (∀ c ∈ ds, Text.isDecimal c) →
      (ds.reverse ++ '(' :: s).takeWhile Text.isDecimal = ds.reverse := fun hd => by
    rw [List.takeWhile_append_of_pos fun c hc => hd c (List.mem_reverse.1 hc),
      List.takeWhile_cons_of_neg (by simp [hopen]), List.append_nil]
  simp only [numbered] at hr
  simpa [htake h.decimal, htake h'.decimal] using hr.symm

theorem short_iff (h : Numbered name stem digits) : Short name ↔ digits.length ≤ Numeral.maxDigits :=
  ⟨fun hs => hs _ _ h, fun hl _ _ h' => (h.digits_eq h').symm ▸ hl⟩

/-- The name that is tried after `j` others. -/
def variant (name : String) : Nat → String
  | 0 => name
  | j + 1 => numbered (base name).1 (toString ((base name).2 + j))

theorem variants_variant (name : String) : Variants name (variant name) where
  first := rfl
  counted stem digits h j hj := by
    obtain ⟨j, rfl⟩ := Nat.exists_eq_add_of_le' hj
    rw [variant, h.base]
    dsimp only
    rw [Nat.add_right_comm, Nat.add_assoc]
  plain h j hj := by
    obtain ⟨j, rfl⟩ := Nat.exists_eq_add_of_le' hj
    rw [variant, base_of_not_numbered h]
    dsimp only
    rw [Nat.add_comm]

theorem base_variant_one (name : String) :
    base (variant name 1) = ((base name).1, (base name).2 + 1) :=
  base_numbered _ _

/-- What is tried from the second name on is what was tried after it before. -/
theorem variant_variant_one (name : String) (j : Nat) :
    variant (variant name 1) j = variant name (j + 1) := by
  cases j with
  | zero => rfl
  | succ j =>
    rw [variant, base_variant_one, variant]
    dsimp only
    rw [Nat.add_right_comm, Nat.add_assoc]

theorem variant_succ_ne (name : String) (j : Nat) : variant name (j + 1) ≠ name :=
  ne_numbered (Nat.le_add_right _ j)

theorem variant_injective (name : String) : Function.Injective (variant name) := by
  intro i j h
  cases i with
  | zero =>
    cases j with
    | zero => rfl
    | succ j => exact absurd h.symm (variant_succ_ne name j)
  | succ i =>
    cases j with
    | zero => exact absurd h (variant_succ_ne name i)
    | succ j =>
      have hb := congrArg base h
      rw [variant, variant, base_numbered, base_numbered] at hb
      have := (Prod.mk.inj hb).2
      omega

/-- There are more variants than names in use. -/
theorem exists_unused (name : String) (taken : List String) : ∃ j, variant name j ∉ taken := by
  obtain ⟨j, hj⟩ := Infinite.exists_notMem_finset
    (taken.toFinset.preimage (variant name) (variant_injective name).injOn)
  exact ⟨j, by simpa using hj⟩

theorem short_variant_succ (name : String) (j : Nat) :
    Short (variant name (j + 1)) ↔ (base name).2 + j < 10 ^ Numeral.maxDigits := by
  refine (short_iff (numbered_numbered _ _)).trans ?_
  exact Nat.length_toDigits_le_iff (by decide) (by decide)

theorem writeNat_isOk {n : Nat} :
    (∃ digits, Numeral.writeNat n = .ok digits) ↔ n < 10 ^ Numeral.maxDigits := by
  have hpower : ∀ k, tenTo k = 10 ^ k := fun _ => rfl
  refine ⟨fun ⟨_, h⟩ => (Numeral.writeNat_ok h).2, fun h => ⟨toString n, if_neg ?_⟩⟩
  rw [hpower]
  exact Nat.not_le.2 h

/-- A name is counted on from and to if both numbers are short enough. -/
theorem advance_isOk (name : String) :
    (∃ next, advance name = .ok next) ↔ Short name ∧ Short (variant name 1) := by
  rw [short_variant_succ name 0, Nat.add_zero]
  cases hs : FreeName.suffix? name.toList with
  | none =>
    have hnot : ∀ stem digits, ¬Numbered name stem digits := fun stem digits h => by
      rw [h.suffix?] at hs
      contradiction
    rw [base_of_not_numbered hnot, advance, hs]
    refine iff_of_true ⟨_, rfl⟩ ⟨fun stem digits h => absurd h (hnot stem digits), ?_⟩
    exact Nat.one_lt_pow (show Numeral.maxDigits ≠ 0 from nofun) (by decide)
  | some p =>
    obtain ⟨stem, ds⟩ := p
    obtain ⟨digits, hn, rfl⟩ := exists_numbered hs
    have hlength : (digits.filterMap Text.digitValue?).length = digits.length := by
      rw [List.length_filterMap_eq_countP]
      exact List.countP_eq_length.2 hn.decimal
    rw [short_iff hn, hn.base, advance, hs]
    dsimp only
    rw [hlength]
    by_cases hl : Numeral.maxDigits < digits.length
    · rw [if_pos hl]
      exact iff_of_false (by simp) fun h => absurd h.1 (Nat.not_le.2 hl)
    · rw [if_neg hl, and_iff_right (Nat.le_of_not_lt hl), value, ← writeNat_isOk]
      cases Numeral.writeNat (Numeral.ofDigits (digits.filterMap Text.digitValue?) + 1) with
      | ok written => exact iff_of_true ⟨_, rfl⟩ ⟨_, rfl⟩
      | error e => simp [Except.map]

/-- The search ends at the first of the variants that is not in use, unless a number gets too long. -/
theorem firstFree_isOk {taken : List String} (hpassed : ∀ j < m, variant name j ∈ taken)
    (hfree : variant name m ∉ taken) (free : String) : firstFree taken name = .ok free ↔
      free = variant name m ∧ (0 < m → ∀ j ≤ m, Short (variant name j)) := by
  induction m generalizing taken name with
  | zero =>
    have hfree' : name ∉ taken := hfree
    rw [firstFree, dif_neg hfree', Except.ok.injEq]
    exact ⟨fun h => ⟨h.symm, fun h => absurd h (Nat.lt_irrefl 0)⟩, fun h => h.1.symm⟩
  | succ m ih =>
    have hm : name ∈ taken := hpassed 0 m.succ_pos
    have hne : ∀ j, variant name (j + 1) ∈ taken.erase name ↔ variant name (j + 1) ∈ taken := fun j =>
      List.mem_erase_of_ne (variant_succ_ne name j)
    -- all later names are variants of the next one as well
    have hpassed' : ∀ j < m, variant (variant name 1) j ∈ taken.erase name := fun j hj => by
      rw [variant_variant_one, hne]
      exact hpassed (j + 1) (Nat.succ_lt_succ hj)
    have hfree' : variant (variant name 1) m ∉ taken.erase name := by
      rw [variant_variant_one, hne]
      exact hfree
    have ih := ih hpassed' hfree'
    simp only [variant_variant_one] at ih
    have hshort : (0 < m + 1 → ∀ j ≤ m + 1, Short (variant name j)) ↔
        (Short name ∧ Short (variant name 1)) ∧ (0 < m → ∀ j ≤ m, Short (variant name (j + 1))) := by
      constructor
      · intro h
        have h := h m.succ_pos
        exact ⟨⟨h 0 (Nat.zero_le _), h 1 (by omega)⟩, fun _ j hj => h (j + 1) (Nat.succ_le_succ hj)⟩
      · rintro ⟨⟨h0, h1⟩, h⟩ - j hj
        rcases j with _ | _ | j
        · exact h0
        · exact h1
        · exact h (by omega) (j + 1) (by omega)
    rw [hshort, ← advance_isOk, firstFree, dif_pos hm]
    cases ha : advance name with
    | error e => simp
    | ok next =>
      obtain rfl : next = variant name 1 := advance_ok ha
      dsimp only
      rw [ih, and_iff_right (⟨_, rfl⟩ : ∃ n, Except.ok (variant name 1) = .ok n)]

theorem firstFree_error {taken : List String} {e : Numeral.IntegerError} (hm : name ∈ taken)
    (ha : advance name = .error e) : firstFree taken name = .error e := by
  rw [firstFree, dif_pos hm, ha]

theorem trimmed_variant (h : Text.Trimmed name.toList) (hne : name ≠ "") (j : Nat) :
    Text.Trimmed (variant name j).toList := by
  cases j with
  | zero => exact h
  | succ j => exact trimmed_numbered h hne _

end FreeName

namespace Tree

variable {t : Tree} {except : Option NodeId} {raw : String}

/-- A node of the tree, other than the one left out, has the name. -/
def InUse (t : Tree) (except : Option NodeId) (name : String) : Prop :=
  ∃ m ∈ t.flatten, some m ≠ except ∧ t.name m = .text name

/-- The names in use can be compared with each other, as texts can. -/
def Comparable (t : Tree) (except : Option NodeId) : Prop :=
  ∀ m ∈ t.flatten, some m ≠ except → (t.name m).isMember

theorem mem_inUse {name : String} :
    name ∈ FreeName.texts ((t.flatten.filter (some · != except)).map t.name) ↔ t.InUse except name := by
  rw [mem_texts, List.mem_map]
  simp [InUse, and_assoc]

theorem all_isMember : ((t.flatten.filter (some · != except)).map t.name).all Value.isMember ↔
    t.Comparable except := by
  simp [Comparable, or_iff_not_imp_left]

theorem uniqueName_eq_ok {s : String} : t.uniqueName (.text raw) except = .ok s ↔
    t.Comparable except ∧ ∃ free, s = Text.trim free ∧ FreeName.firstFree
      (FreeName.texts ((t.flatten.filter (some · != except)).map t.name)) (Text.trim raw) =
        .ok free := by
  unfold uniqueName FreeName.comparable
  by_cases hc : t.Comparable except
  · rw [if_pos (all_isMember.2 hc), and_iff_right hc]
    dsimp only
    cases FreeName.firstFree _ (Text.trim raw) with
    | ok free => simp [eq_comm]
    | error e => simp
  · rw [if_neg (mt all_isMember.1 hc)]
    exact iff_of_false nofun fun h => hc h.1

theorem uniqueName_error {e : Numeral.IntegerError} (hc : t.Comparable except)
    (hf : FreeName.firstFree (FreeName.texts ((t.flatten.filter (some · != except)).map t.name))
      (Text.trim raw) = .error e) : t.uniqueName (.text raw) except = .error (.number e) := by
  unfold uniqueName FreeName.comparable
  rw [if_pos (all_isMember.2 hc)]
  dsimp only
  rw [hf]

/-- The first `m` names are in use and the next one is not. -/
structure FirstUnused (t : Tree) (except : Option NodeId) (s : Nat → String) (m : Nat) : Prop where
  passed : ∀ j < m, t.InUse except (s j)
  unused : ¬t.InUse except (s m)

theorem exists_firstUnused (t : Tree) (except : Option NodeId) (name : String) :
    ∃ m, t.FirstUnused except (FreeName.variant name) m := by
  classical
  have h : ∃ m, ¬t.InUse except (FreeName.variant name m) := by
    obtain ⟨m, hm⟩ := FreeName.exists_unused name
      (FreeName.texts ((t.flatten.filter (some · != except)).map t.name))
    exact ⟨m, mt mem_inUse.2 hm⟩
  exact ⟨Nat.find h, fun j hj => not_not.1 (Nat.find_min h hj), Nat.find_spec h⟩

theorem FirstUnused.uniqueName_isOk {m : Nat} (h : t.FirstUnused except (FreeName.variant (Text.trim raw)) m)
    (hb : Text.trim raw ≠ "") (s : String) : t.uniqueName (.text raw) except = .ok s ↔
      s = FreeName.variant (Text.trim raw) m ∧ t.Comparable except ∧
        (0 < m → ∀ j ≤ m, FreeName.Short (FreeName.variant (Text.trim raw) j)) := by
  have htrim := (FreeName.trimmed_variant (Text.trimmed_trim raw) hb m).trim_eq
  have hfree := FreeName.firstFree_isOk (fun j hj => mem_inUse.2 (h.passed j hj)) (mt mem_inUse.1 h.unused)
  rw [uniqueName_eq_ok, and_left_comm]
  refine and_congr_right fun _ => ?_
  constructor
  · rintro ⟨free, rfl, hf⟩
    obtain ⟨rfl, hs⟩ := (hfree free).1 hf
    exact ⟨htrim, hs⟩
  · rintro ⟨rfl, hs⟩
    exact ⟨_, htrim.symm, (hfree _).2 ⟨rfl, hs⟩⟩

/-- A node may be renamed to its own name, which changes nothing. -/
theorem rename_own {n : NodeId} (hn : n ∈ t.flatten) (hname : t.name n = .text raw)
    (htrim : Text.trim raw = raw) (hfree : ¬t.InUse (some n) raw) (hc : t.Comparable (some n)) :
    t.rename n (.text raw) = .ok t := by
  have hkept : t.uniqueName (.text raw) (some n) = .ok raw := by
    refine uniqueName_eq_ok.2 ⟨hc, raw, htrim.symm, ?_⟩
    rw [htrim, FreeName.firstFree, dif_neg (mt mem_inUse.1 hfree)]
  have hin : t.contains n := by simpa [contains] using hn
  rw [rename, hin, hkept]
  cases hnode : t.node? n with
  | none => rfl
  | some node =>
    have hsame : node.setName (.text raw) = node := by
      rw [← hname, name, hnode]
      cases node <;> rfl
    have hset : t.setNode n node = t := by
      obtain ⟨hlt, he⟩ := List.getElem?_eq_some_iff.1 hnode
      simp [setNode, ← he]
    simp [hsame, hset]

/-- The name that is given is the first of the variants that no other node has. It is given unless a
name passed over, or that one after others, ends in a number of too many digits. -/
theorem uniqueName_first (t : Tree) (except : Option NodeId) {raw : String}
    (hb : Text.trim raw ≠ "") :
    ∃ s m, FreeName.Variants (Text.trim raw) s ∧ t.FirstUnused except s m ∧
      Text.trim (s m) = s m ∧ (¬t.InUse except (Text.trim raw) → s m = Text.trim raw) ∧
      (∀ given, t.uniqueName (.text raw) except = .ok given ↔
        given = s m ∧ t.Comparable except ∧ (0 < m → ∀ j ≤ m, FreeName.Short (s j))) ∧
      (∀ n ∈ t.flatten, t.name n = .text raw → Text.trim raw = raw → ¬t.InUse (some n) raw →
        t.Comparable (some n) → t.rename n (.text raw) = .ok t) := by
  obtain ⟨m, h⟩ := exists_firstUnused t except (Text.trim raw)
  refine ⟨FreeName.variant (Text.trim raw), m, FreeName.variants_variant _, h,
    (FreeName.trimmed_variant (Text.trimmed_trim raw) hb m).trim_eq, fun hfree => ?_,
    h.uniqueName_isOk hb, fun n hn hname htrim hfree hc => rename_own hn hname htrim hfree hc⟩
  cases m with
  | zero => rfl
  | succ m => exact absurd (h.passed 0 m.succ_pos) hfree

/-- The name of the first macro ends in a number, and the next number is in use below a folder. -/
def counted : Tree :=
  ⟨[.folder (.text "/") [1, 2], .leaf (.text "x (a) (٠٠٧)") (.ofContents (.text "") .native),
    .folder (.text "x") [3], .leaf (.text "x (a) (8)") (.ofContents (.text "") .native)], 0⟩

theorem counted_on : Text.trim " x (a) (٠٠٧)\t" ≠ "" ∧
    counted.uniqueName (.text " x (a) (٠٠٧)\t") none = .ok "x (a) (9)" ∧
    ∃ s m, FreeName.Variants (Text.trim " x (a) (٠٠٧)\t") s ∧ counted.FirstUnused none s m ∧
      s m = "x (a) (9)" := by
  have hb : Text.trim " x (a) (٠٠٧)\t" ≠ "" := by decide
  have hgiven : counted.uniqueName (.text " x (a) (٠٠٧)\t") none = .ok "x (a) (9)" := by
    decide +kernel
  obtain ⟨s, m, hs, hm, -, -, hok, -⟩ := uniqueName_first counted none hb
  exact ⟨hb, hgiven, s, m, hs, hm, ((hok _).1 hgiven).1.symm⟩

/-- A name whose number has one digit more than a numeral may have. -/
def overlong : String :=
  FreeName.numbered "x" (String.ofList (List.replicate (Numeral.maxDigits + 1) '1'))

def overlongUsed : Tree :=
  ⟨[.folder (.text "/") [1], .leaf (.text overlong) (.ofContents (.text "") .native)], 0⟩

theorem overlong_numbered :
    FreeName.Numbered overlong "x" (List.replicate (Numeral.maxDigits + 1) '1') where
  eq := rfl
  ne_nil := nofun
  decimal c hc := by
    rw [List.eq_of_mem_replicate hc]
    decide

theorem overlong_toList : overlong.toList =
    ['x', ' ', '('] ++ List.replicate (Numeral.maxDigits + 1) '1' ++ [')'] := by
  simp [overlong, FreeName.numbered]

theorem trim_overlong : Text.trim overlong = overlong := by
  refine Text.Trimmed.trim_eq ⟨fun c hc => ?_, fun c hc => ?_⟩
  · rw [overlong_toList, List.append_assoc] at hc
    obtain rfl := Option.some.inj hc
    decide
  · rw [overlong_toList, List.getLast?_concat] at hc
    obtain rfl := Option.some.inj hc
    decide

theorem advance_overlong :
    FreeName.advance overlong = .error (.tooManyDigits (Numeral.maxDigits + 1)) := by
  have hlength : ((List.replicate (Numeral.maxDigits + 1) '1').filterMap Text.digitValue?).length =
      Numeral.maxDigits + 1 := by
    rw [List.filterMap_replicate_of_some (show Text.digitValue? '1' = some 1 from rfl),
      List.length_replicate]
  rw [FreeName.advance, overlong_numbered.suffix?]
  dsimp only
  rw [hlength, if_pos (Nat.lt_succ_self _)]

/-- It is in use, so the next number is to be tried, and that is not given. -/
theorem overlong_refused : Text.trim overlong ≠ "" ∧ overlongUsed.InUse none overlong ∧
    overlongUsed.uniqueName (.text overlong) none =
      .error (.number (.tooManyDigits (Numeral.maxDigits + 1))) := by
  have huse : overlongUsed.InUse none overlong := ⟨1, by decide, nofun, rfl⟩
  have hcomparable : overlongUsed.Comparable none := by
    intro m hm _
    have : m = 0 ∨ m = 1 := by simpa using (show m ∈ [0, 1] from hm)
    rcases this with rfl | rfl <;> rfl
  refine ⟨?_, huse, uniqueName_error hcomparable ?_⟩
  · rw [trim_overlong]
    intro he
    have hchars := overlong_toList
    rw [he] at hchars
    contradiction
  · rw [trim_overlong]
    exact FreeName.firstFree_error (mem_inUse.2 huse) advance_overlong

end Tree

end Macros
