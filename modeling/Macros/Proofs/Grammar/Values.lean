import Macros.Grammar.Builtin
import Macros.Grammar.Tag
import Macros.Proofs.Grammar.Tags
import Macros.Proofs.Number.Numerals
import Macros.Proofs.Text.Lower
import Macros.Proofs.Text.Words

/-!
The value of a tag is written as its grammar reads it. For each built-in tag, spans and seconds
apart, a value that was read is written as the text of a tag that the grammar reads as that value.
-/

namespace Macros

/-! Names between commas. -/

namespace ModifierGrammar

/-- The names that a list of conditions is read as. -/
def namesIn (s : String) : List String :=
  (Text.split ',' s).map fun part => Text.lower (Text.trim part)

theorem readCondition_ok {raw : Option String} {names : List String}
    (h : readCondition raw = .ok names) :
    names = namesIn (raw.getD "") ∧ (names.any fun n => n.isEmpty || n == "!") = false := by
  unfold readCondition at h
  dsimp only at h
  split at h
  · contradiction
  · next hn =>
    obtain rfl := Except.ok.inj h
    exact ⟨rfl, by simpa using hn⟩

theorem mem_namesIn {s n : String} (h : n ∈ namesIn s) :
    Text.Trimmed n.toList ∧ Text.lower n = n ∧
      ∀ c ∈ n.toList, Text.setApart.any (·.contains c.toNat) → c ∈ s.toList ∧ c ≠ ',' := by
  obtain ⟨part, hp, rfl⟩ := List.mem_map.1 h
  refine ⟨?_, Text.lower_lower _, ?_⟩
  · rw [Text.lower, String.toList_ofList]
    exact (Text.trimmed_trim part).lowerChars
  · intro c hc hs
    rw [Text.lower, String.toList_ofList] at hc
    exact Text.mem_of_mem_split hp c (Text.mem_of_mem_trim (Text.mem_of_mem_lowerChars hc hs))

theorem namesIn_intercalate (s : String) : namesIn (",".intercalate (namesIn s)) = namesIn s := by
  have hne : namesIn s ≠ [] := by simp [namesIn, Text.split_ne_nil]
  have hcomma : ∀ n ∈ namesIn s, ',' ∉ n.toList := fun n hn hc =>
    ((mem_namesIn hn).2.2 ',' hc (by decide)).2 rfl
  have hsame : ∀ n ∈ namesIn s, Text.lower (Text.trim n) = n := fun n hn => by
    obtain ⟨ht, hl, -⟩ := mem_namesIn hn
    rw [ht.trim_eq, hl]
  calc namesIn (",".intercalate (namesIn s))
      = (Text.split ',' (",".intercalate (namesIn s))).map fun n => Text.lower (Text.trim n) := rfl
    _ = (namesIn s).map fun n => Text.lower (Text.trim n) := by
        rw [Text.split_intercalate hcomma hne]
    _ = namesIn s := (List.map_congr_left hsame).trans (List.map_id' _)

@[simp] theorem mapM_textOf (names : List String) : (names.map Value.text).mapM textOf = .ok names := by
  induction names with
  | nil => rfl
  | cons n names ih => rw [List.map_cons, List.mapM_cons, ih]; rfl

theorem mem_intercalate_comma {names : List String} {c : Char}
    (h : c ∈ (",".intercalate names).toList) : c = ',' ∨ ∃ n ∈ names, c ∈ n.toList := by
  induction names with
  | nil => simp at h
  | cons n names ih =>
    cases names with
    | nil => exact .inr ⟨n, List.mem_cons_self, by simpa using h⟩
    | cons m names =>
      rw [String.intercalate_cons_cons, String.toList_append, String.toList_append,
        List.append_assoc, List.mem_append, List.mem_append] at h
      obtain h | h | h := h
      · exact .inr ⟨n, List.mem_cons_self, h⟩
      · exact .inl (by simpa using h)
      · exact (ih h).imp_right fun ⟨k, hk, hc⟩ => ⟨k, List.mem_cons_of_mem n hk, hc⟩

end ModifierGrammar

/-! The tags. -/

namespace ModifierGrammar

/-- A tag of the name that the value is written as. -/
structure Renders (g : ModifierGrammar) (name : String) (v : Value) (b : Tag) : Prop where
  valid : b.Valid
  named : b.name = name
  written : g.render v = .ok b.whole

/-- A tag of the name that the value is written as, and that is read as the value. -/
structure Stands (g : ModifierGrammar) (name : String) (v : Value) (b : Tag) : Prop
    extends Renders g name v b where
  read : g.read b.value = .ok v

theorem readFlag_ok {raw : Option String} {v : Value} (h : readFlag raw = .ok v) :
    v = .flag true := by
  unfold readFlag at h
  split at h
  · exact (Except.ok.inj h).symm
  · split at h
    · exact (Except.ok.inj h).symm
    · contradiction

theorem unconfirmed_stands {raw : Option String} {v : Value} (h : unconfirmed.read raw = .ok v) :
    unconfirmed.Stands "unsafe" v ⟨"unsafe", none⟩ where
  valid := Tag.valid_none (by decide) (by decide)
  named := rfl
  written := rfl
  read := by rw [readFlag_ok h]; rfl

theorem echo_stands {raw : Option String} {v : Value} (h : echo.read raw = .ok v) :
    echo.Stands "echo" v ⟨"echo", none⟩ where
  valid := Tag.valid_none (by decide) (by decide)
  named := rfl
  written := rfl
  read := by rw [readFlag_ok h]; rfl

/-- Names that were read are read again from what they are written as. -/
theorem condition_stands_of_closed {raw : Option String} {names : List String}
    (hn : readCondition raw = .ok names) (hclosed : ∀ n ∈ names, ∀ c ∈ n.toList, Tag.isValueChar c) :
    condition.Stands "condition" (.tuple (names.map .text)) ⟨"condition", some (",".intercalate names)⟩ := by
  obtain ⟨rfl, hany⟩ := readCondition_ok hn
  refine ⟨⟨Tag.valid_some (by decide) (by decide) ?_, rfl, ?_⟩, ?_⟩
  · intro c hc
    obtain rfl | ⟨n, hn, hc⟩ := mem_intercalate_comma hc
    · decide
    · exact hclosed n hn c hc
  · simp only [render, renderCondition, Value.parts?, mapM_textOf]
    rfl
  · have hsame := namesIn_intercalate (raw.getD "")
    rw [namesIn] at hsame
    simp only [read, readCondition, Option.getD_some, hsame, hany]
    rfl

theorem read_condition {raw : Option String} {v : Value} (h : condition.read raw = .ok v) :
    ∃ names, readCondition raw = .ok names ∧ v = .tuple (names.map .text) := by
  cases hn : readCondition raw with
  | error e => simp [read, hn, Except.map] at h
  | ok names => exact ⟨names, rfl, by simpa [read, hn, Except.map] using h.symm⟩

/-- A bracket in a name would be in the text that the name comes from. -/
theorem closed_of_read {raw : Option String} {names : List String}
    (hraw : ∀ c ∈ (raw.getD "").toList, Tag.isValueChar c) (hn : readCondition raw = .ok names) :
    ∀ n ∈ names, ∀ c ∈ n.toList, Tag.isValueChar c := by
  intro n hmem c hc
  obtain ⟨rfl, -⟩ := readCondition_ok hn
  by_cases hs : Text.setApart.any (·.contains c.toNat)
  · exact hraw c ((mem_namesIn hmem).2.2 c hc hs).1
  · have hopen : c ≠ '<' := fun he => hs (by rw [he]; decide)
    have hclose : c ≠ '>' := fun he => hs (by rw [he]; decide)
    simp [Tag.isValueChar, hopen, hclose]

theorem condition_stands {raw : Option String} {v : Value}
    (hraw : ∀ c ∈ (raw.getD "").toList, Tag.isValueChar c) (h : condition.read raw = .ok v) :
    ∃ value, condition.Stands "condition" v ⟨"condition", some value⟩ := by
  obtain ⟨names, hn, rfl⟩ := read_condition h
  exact ⟨_, condition_stands_of_closed hn (closed_of_read hraw hn)⟩

theorem readIndex_ok {raw : Option String} {n : Int} (h : readIndex raw = .ok n) :
    ∃ k : Nat, n = k ∧ 1 ≤ k ∧ k < 10 ^ Numeral.maxDigits := by
  unfold readIndex at h
  split at h
  · contradiction
  · next m hm =>
    split at h
    · contradiction
    · obtain rfl := Except.ok.inj h
      exact ⟨m.toNat, by omega, by omega, by have := Numeral.integer?_lt hm; omega⟩

theorem readIndex_toString {k : Nat} (h1 : 1 ≤ k) (h : k < 10 ^ Numeral.maxDigits) :
    readIndex (some (toString k)) = .ok (k : Int) := by
  rw [readIndex, Option.getD_some, Numeral.integer?_toString h]
  exact if_neg (by omega)

theorem read_index {raw : Option String} {v : Value} (h : index.read raw = .ok v) :
    ∃ n, readIndex raw = .ok n ∧ v = .int n := by
  cases hn : readIndex raw with
  | error e => simp [read, hn, Except.map] at h
  | ok n => exact ⟨n, rfl, by simpa [read, hn, Except.map] using h.symm⟩

theorem index_stands {raw : Option String} {v : Value} (h : index.read raw = .ok v) :
    ∃ value, index.Stands "index" v ⟨"index", some value⟩ := by
  obtain ⟨n, hn, rfl⟩ := read_index h
  obtain ⟨k, rfl, h1, hk⟩ := readIndex_ok hn
  refine ⟨toString k, ⟨Tag.valid_some (by decide) (by decide) ?_, rfl, rfl⟩, ?_⟩
  · intro c hc
    have := Numeral.isDigit_iff.1 (Numeral.isDigit_of_mem_toString hc)
    have hopen : c ≠ '<' := fun he => by rw [he] at this; exact absurd this (by decide)
    have hclose : c ≠ '>' := fun he => by rw [he] at this; exact absurd this (by decide)
    simp [Tag.isValueChar, hopen, hclose]
  · rw [read, readIndex_toString h1 hk]
    rfl

/-- Whatever a built-in tag other than the two for times was given, its value is written as a tag
that gives it again. -/
theorem builtin_stands {spec : ModifierSpec} (h : spec ∈ builtinModifiers)
    (hwait : spec.name ≠ "wait") (hmax : spec.name ≠ "maxwait") {a : Tag} (ha : a.Valid) {v : Value}
    (hv : spec.grammar.read a.value = .ok v) : ∃ b, spec.grammar.Stands spec.name v b := by
  have hraw : ∀ c ∈ (a.value.getD "").toList, Tag.isValueChar c := by
    cases hval : a.value with
    | none => simp
    | some s => exact ha.value s hval
  simp only [builtinModifiers, List.mem_cons, List.not_mem_nil, or_false] at h
  obtain rfl | rfl | rfl | rfl | rfl | rfl := h
  · exact absurd rfl hwait
  · exact ⟨_, unconfirmed_stands hv⟩
  · exact ⟨_, echo_stands hv⟩
  · exact absurd rfl hmax
  · exact (condition_stands hraw hv).imp' _ fun _ => id
  · exact (index_stands hv).imp' _ fun _ => id

/-! Whatever was read can be written. -/

@[simp] theorem brief_number (x : Binary64) : (Value.number x).brief = .ok (Decimal.brief x) := by
  simp [Value.brief, Value.toBinary, Value.number?, Value.toInt?, Except.map]

end ModifierGrammar

end Macros
