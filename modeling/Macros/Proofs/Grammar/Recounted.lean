import Macros.Proofs.Grammar.Rewritten
import Macros.Proofs.Text.Lines

/-!
A macro that is run with a count of its own. Its last loop is written anew with the count, every other line
stays as it is, and a macro without a loop has one added at its end. The loop keeps its modifiers just if their
values are kept when they are written.
-/

namespace Macros

namespace CraftLoop

variable {r : Registry}

/-- The line with this number is read as a loop. -/
def IsLoop (r : Registry) (num : Int) (l : String) : Prop :=
  ∃ i, Line.read r l num = .ok (some i) ∧ i.command = "loop"

theorem setCount?_loop {num : Int} {l : String} {i : Instruction}
    (hi : Line.read r l num = .ok (some i)) (hloop : i.command = "loop") (count : Int) :
    setCount? r count l num =
      some (Instruction.write { i with rawArgs := toString count, args := .int count } r) := by
  rw [setCount?, hi]
  exact if_pos hloop

theorem setCount?_none {num : Int} {l : String} (h : ¬ IsLoop r num l) (count : Int) :
    setCount? r count l num = none := by
  unfold setCount?
  split
  · next i hi => exact if_neg fun hloop => h ⟨i, hi, hloop⟩
  · rfl

theorem setLast?_none {num : Int} {ls : List String}
    (h : ∀ (k : Nat) l, ls[k]? = some l → ¬ IsLoop r (num + k) l) (count : Int) :
    setLast? r count num ls = none := by
  induction ls generalizing num with
  | nil => rfl
  | cons l ls ih =>
    have hl : ¬ IsLoop r num l := by simpa using h 0 l rfl
    have hls : setLast? r count (num + 1) ls = none := ih fun k m hm => by
      have hk := h (k + 1) m (by simpa using hm)
      rwa [Nat.cast_succ, add_comm (k : Int), ← add_assoc] at hk
    rw [setLast?, hls, setCount?_none hl]
    rfl

theorem setLast?_append {num : Int} {l : String} {after : List String} {x : Except WriteError String}
    (before : List String) (count : Int)
    (hlast : setLast? r count (num + before.length + 1) after = none)
    (hl : setCount? r count l (num + before.length) = some x) :
    setLast? r count num (before ++ l :: after) = some (x.map (before ++ · :: after)) := by
  induction before generalizing num with
  | nil =>
    rw [List.length_nil, Nat.cast_zero, add_zero] at hlast hl
    rw [List.nil_append, setLast?, hlast, hl]
    rfl
  | cons b before ih =>
    rw [List.length_cons, Nat.cast_succ, add_comm (before.length : Int), ← add_assoc] at hlast hl
    rw [List.cons_append, setLast?, ih hlast hl]
    cases x <;> rfl

/-- The last loop of a macro, and the lines before and after it. -/
structure LastLoop (r : Registry) (ls before : List String) (l : String) (i : Instruction)
    (after : List String) : Prop where
  lines : ls = before ++ l :: after
  read : Line.read r l before.length = .ok (some i)
  loop : i.command = "loop"
  last : ∀ (k : Nat) m, after[k]? = some m → ¬ IsLoop r (before.length + 1 + k) m

theorem LastLoop.setLast?_eq {ls before after : List String} {l : String} {i : Instruction}
    (h : LastLoop r ls before l i after) (count : Int) :
    setLast? r count 0 ls =
      some ((Instruction.write { i with rawArgs := toString count, args := .int count } r).map
        (before ++ · :: after)) := by
  rw [h.lines]
  refine setLast?_append before count ?_ ?_
  · rw [zero_add]
    exact setLast?_none h.last count
  · rw [zero_add]
    exact setCount?_loop h.read h.loop count

/-! Counts in digits. -/

theorem word_toString (n : Nat) : Text.Word (toString n).toList ∧ '<' ∉ (toString n).toList := by
  refine ⟨⟨?_, fun c hc => ?_⟩, fun hopen => absurd (Numeral.isDigit_of_mem_toString hopen) (by decide)⟩
  · rw [Nat.toString_eq_repr, Nat.toList_repr]
    exact Nat.toDigits_ne_nil
  · have hdigit := Numeral.isDigit_of_mem_toString hc
    have hd := Numeral.isDigit_iff.1 hdigit
    rw [Bool.eq_false_iff]
    intro hb
    have hpad := Numeral.not_padding_of_isDigit hdigit
    have := Text.isBlank_iff.1 hb
    omega

theorem findAll_of_closed {s : String} (h : '<' ∉ s.toList) : ∀ a, a ∉ Tag.findAll s := by
  intro a ha
  have hmem : '<' ∈ (Tag.pieces s.toList).flatMap Tag.Piece.chars :=
    List.mem_flatMap.2 ⟨_, Tag.mem_findAll.1 ha, by simp [Tag.Piece.chars]⟩
  rw [Tag.chars_pieces] at hmem
  exact h hmem

theorem read_count {n : Nat} (h : n < 10 ^ Numeral.maxDigits) :
    ArgumentGrammar.count.read (toString n) = .ok (.int n) := by
  obtain ⟨hword, -⟩ := word_toString n
  have hempty : (toString n).isEmpty = false := by
    rw [Bool.eq_false_iff, ne_eq, String.isEmpty_iff, ← String.toList_eq_nil_iff]
    exact hword.1
  have hread : readCount (toString n) = .ok (some (n : Int)) := by
    simp only [readCount, hword.trimmed.trim_eq, hempty, Numeral.integer?_toString h, Bool.false_eq_true,
      if_false]
    exact if_neg (by omega)
  rw [ArgumentGrammar.read, hread]
  rfl

/-! The text that is run. -/

variable {aliases : List (String × String)}

theorem loop_grammar : ∀ spec ∈ builtinCommands, spec.name = "loop" → spec.grammar = .count := by
  decide

theorem resolve_loop (aliases : List (String × String)) :
    ∃ spec, (Registry.builtin.withAliases aliases).resolve "loop" = some spec ∧
      spec.name = "loop" ∧ spec.grammar = .count := by
  have hfound : ∃ spec, Registry.builtin.commands.get? "loop" = some spec := ⟨_, rfl⟩
  obtain ⟨spec, hspec⟩ := hfound
  obtain ⟨hmem, hname⟩ := Registry.builtin_commands hspec
  have hres := Registry.resolve_own aliases (hname.symm ▸ hspec)
  rw [hname] at hres
  exact ⟨spec, hres, hname, loop_grammar spec hmem hname⟩

theorem spaced_toString (n : Nat) :
    toString n = " ".intercalate ((Text.wordsChars (toString n).toList).map String.ofList) := by
  rw [Text.wordsChars_word (word_toString n).1, List.map_singleton, String.ofList_toList,
    String.intercalate_singleton]

theorem closed_toString (n : Nat) : ∀ a ∈ Tag.findAll (toString n),
    (Registry.builtin.withAliases aliases).modifier? a.name = none :=
  fun a ha => absurd ha (findAll_of_closed (word_toString n).2 a)

/-- With the count for its argument, the last loop is still what reading gives. -/
theorem LastLoop.parsed {ls before after : List String} {l : String} {i : Instruction}
    (h : LastLoop (Registry.builtin.withAliases aliases) ls before l i after) {n : Nat}
    (hn : n < 10 ^ Numeral.maxDigits) :
    ∃ spec, Line.Parsed (Registry.builtin.withAliases aliases)
      { i with rawArgs := toString n, args := .int n } spec := by
  obtain ⟨spec, hp⟩ := Line.read_parsed h.read
  obtain ⟨token, hres⟩ := hp.resolved
  have hgrammar := loop_grammar spec (Registry.mem_builtinCommands hres) (hp.command.symm.trans h.loop)
  exact ⟨spec, hp.resolved, hp.command, by rw [hgrammar]; exact read_count hn, ⟨_, spaced_toString n⟩,
    hp.gathered⟩

theorem LastLoop.overrideLast_eq {text : String} {before after : List String} {l l' : String}
    {i : Instruction} (h : LastLoop r (Text.lines text) before l i after) {n : Nat}
    (hl' : Instruction.write { i with rawArgs := toString n, args := .int n } r = .ok l') :
    overrideLast r text n = .ok ("\n".intercalate (before ++ l' :: after)) := by
  have hshown : toString (n : Int) = toString n := rfl
  rw [overrideLast]
  simp only [h.setLast?_eq, hshown, hl']
  rfl

/-- The last loop is written with the count, and keeps its modifiers just if their values are kept. -/
theorem LastLoop.overrideLast_iff {text : String} {before after : List String} {l : String}
    {i : Instruction}
    (h : LastLoop (Registry.builtin.withAliases aliases) (Text.lines text) before l i after) {n : Nat}
    (hn : n < 10 ^ Numeral.maxDigits) (hnan : ∀ e ∈ i.modifiers, e.2.NanFree) :
    ∃ l', overrideLast (Registry.builtin.withAliases aliases) text n =
        .ok ("\n".intercalate (before ++ l' :: after)) ∧ ∀ num,
      (∃ j, Line.read (Registry.builtin.withAliases aliases) l' num = .ok (some j) ∧
        j.SameAs { i with rawArgs := toString n, args := .int n }) ↔ ∀ e ∈ i.modifiers, e.2.Kept := by
  obtain ⟨spec, hp⟩ := h.parsed hn
  obtain ⟨l', hl', hiff⟩ := Line.write_iff_kept hp hnan
  exact ⟨l', h.overrideLast_eq hl', fun num => (hiff num).trans (and_iff_right (closed_toString n))⟩

/-- A loop with nothing but a count. -/
theorem read_counted (aliases : List (String × String)) {n : Nat} (hn : n < 10 ^ Numeral.maxDigits)
    (num : Int) :
    ∃ j, Line.read (Registry.builtin.withAliases aliases) ("/loop " ++ toString n) num = .ok (some j) ∧
      j.command = "loop" ∧ j.rawArgs = toString n ∧ j.args = .int n ∧ j.modifiers = [] ∧ j.line = num := by
  obtain ⟨spec, hres, hname, hgrammar⟩ := resolve_loop aliases
  have hread := Line.read_assemble (i := ⟨"loop", toString n, .int n, [], "", 0⟩) hres hname.symm
    (by rw [hgrammar]; exact read_count hn) (spaced_toString n) (closed_toString n) .nil List.nodup_nil num
  have hline : Instruction.assemble ⟨"loop", toString n, .int n, [], "", 0⟩ ([].map Tag.whole) =
      "/loop " ++ toString n := by
    have hne : (toString n).toList.isEmpty = false := List.isEmpty_eq_false_iff.2 (word_toString n).1.1
    rw [← String.toList_inj, Line.toList_assemble, Line.intercalate_parts, Line.lead, hne]
    simp [Tag.behind]
  rw [hline] at hread
  exact ⟨_, hread, rfl, rfl, rfl, rfl, rfl⟩

theorem overrideLast_unlooped {text : String} (n : Nat)
    (h : ∀ (k : Nat) l, (Text.lines text)[k]? = some l → ¬ IsLoop r k l) :
    overrideLast r text n = .ok ("\n".intercalate (Text.lines text ++ ["/loop " ++ toString n])) := by
  have hnone : setLast? r n 0 (Text.lines text) = none :=
    setLast?_none (fun k l hl => by rw [zero_add]; exact h k l hl) n
  have hshown : toString (n : Int) = toString n := rfl
  rw [overrideLast]
  simp only [hnone, hshown]

/-- A macro without a loop has one added, which is read as a loop with the count. -/
theorem overrideLast_added {text : String} {n : Nat}
    (h : ∀ (k : Nat) l, (Text.lines text)[k]? = some l →
      ¬ IsLoop (Registry.builtin.withAliases aliases) k l) (hn : n < 10 ^ Numeral.maxDigits) :
    overrideLast (Registry.builtin.withAliases aliases) text n =
        .ok ("\n".intercalate (Text.lines text ++ ["/loop " ++ toString n])) ∧ ∀ num,
      ∃ j, Line.read (Registry.builtin.withAliases aliases) ("/loop " ++ toString n) num = .ok (some j) ∧
        j.command = "loop" ∧ j.rawArgs = toString n ∧ j.args = .int n ∧ j.modifiers = [] := by
  refine ⟨overrideLast_unlooped n h, fun num => ?_⟩
  obtain ⟨j, hj, hcommand, hraw, hargs, hmods, -⟩ := read_counted aliases hn num
  exact ⟨j, hj, hcommand, hraw, hargs, hmods⟩

end CraftLoop

open CraftLoop

/-- A value of a built-in modifier, other than one with `nan`, is written as one tag of the modifier's name just if
it has no brackets, and the tag is read as the same value just if the value is kept too. So with any aliases on
top of the built-in commands, a line is written as one that is read as the same instruction just if the argument
has no known tags left and the modifiers are kept; and a macro that is run with a count has the last loop
written anew, which keeps its modifiers just if they are kept, or a loop added if there is none. -/
theorem rewritten_iff_kept (aliases : List (String × String)) :
    (∀ spec ∈ builtinModifiers, ∀ raw v, spec.grammar.read raw = .ok v → v.NanFree →
      ((∃ text b, spec.grammar.render v = .ok text ∧ Tag.read? text.toList = some (b, []) ∧
          b.name = spec.name) ↔ v.Bracketless) ∧
        ((∃ text b w, spec.grammar.render v = .ok text ∧ Tag.read? text.toList = some (b, []) ∧
          b.name = spec.name ∧ spec.grammar.read b.value = .ok w ∧ w.same v = true) ↔
            v.Bracketless ∧ v.Kept)) ∧
      (∀ l num i, Line.read (Registry.builtin.withAliases aliases) l num = .ok (some i) →
        (∀ e ∈ i.modifiers, e.2.NanFree) →
          ∃ text, i.write (Registry.builtin.withAliases aliases) = .ok text ∧ ∀ num',
            (∃ j, Line.read (Registry.builtin.withAliases aliases) text num' = .ok (some j) ∧
              j.SameAs i) ↔
            (∀ a ∈ Tag.findAll i.rawArgs,
              (Registry.builtin.withAliases aliases).modifier? a.name = none) ∧
              ∀ e ∈ i.modifiers, e.2.Kept) ∧
      ∀ text n, n < 10 ^ Numeral.maxDigits →
        (∀ before l i after,
          LastLoop (Registry.builtin.withAliases aliases) (Text.lines text) before l i after →
            (∀ e ∈ i.modifiers, e.2.NanFree) →
              ∃ l', overrideLast (Registry.builtin.withAliases aliases) text (n : Nat) =
                  .ok ("\n".intercalate (before ++ l' :: after)) ∧ ∀ num,
                (∃ j, Line.read (Registry.builtin.withAliases aliases) l' num = .ok (some j) ∧
                  j.SameAs { i with rawArgs := toString n, args := .int n }) ↔
                  ∀ e ∈ i.modifiers, e.2.Kept) ∧
          ((∀ (k : Nat) l, (Text.lines text)[k]? = some l →
              ¬ IsLoop (Registry.builtin.withAliases aliases) k l) →
            overrideLast (Registry.builtin.withAliases aliases) text (n : Nat) =
                .ok ("\n".intercalate (Text.lines text ++ ["/loop " ++ toString n])) ∧ ∀ num,
              ∃ j, Line.read (Registry.builtin.withAliases aliases) ("/loop " ++ toString n) num =
                  .ok (some j) ∧
                j.command = "loop" ∧ j.rawArgs = toString n ∧ j.args = .int n ∧ j.modifiers = []) := by
  refine ⟨fun spec hspec raw v hv hnan => ⟨?_, ?_⟩, fun l num i hi hnan => ?_, fun text n hn =>
    ⟨fun before l i after h hnan => h.overrideLast_iff hn hnan, fun h => overrideLast_added h hn⟩⟩
  · rw [← ModifierGrammar.renders_iff_bracketless hspec hv hnan]
    simp only [ModifierGrammar.renders_iff]
    exact exists_comm
  · rw [← ModifierGrammar.readsBack_iff_kept hspec hv hnan]
    simp only [ModifierGrammar.renders_iff, ModifierGrammar.ReadsBack]
    constructor
    · rintro ⟨text, b, w, hw, hr, hb, hread⟩
      exact ⟨b, ⟨text, hw, hr, hb⟩, w, hread⟩
    · rintro ⟨b, ⟨text, hw, hr, hb⟩, w, hread⟩
      exact ⟨text, b, w, hw, hr, hb, hread⟩
  · obtain ⟨spec, hp⟩ := Line.read_parsed hi
    exact Line.write_iff_kept hp hnan

/-- Is a limit of ten seconds the only modifier, and no tag in the argument? -/
def isLimitedToTen (i : Instruction) : Bool :=
  match i.modifiers with
  | [(_, .number x)] => (Binary64.ofDecimal false 10 0).eq x && (Tag.findAll i.rawArgs).isEmpty
  | _ => false

theorem kept_of_isLimitedToTen {i : Instruction} (h : isLimitedToTen i = true) :
    (∀ e ∈ i.modifiers, e.2.NanFree) ∧ (∀ e ∈ i.modifiers, e.2.Kept) ∧ Tag.findAll i.rawArgs = [] := by
  unfold isLimitedToTen at h
  split at h
  · next k x hm =>
    rw [Bool.and_eq_true, List.isEmpty_iff] at h
    have hx : x.SixDigits := ⟨10, 0, by decide, h.1⟩
    rw [hm]
    simp only [List.forall_mem_singleton]
    exact ⟨Value.sixDigits_not_nan hx, hx, h.2⟩
  · nomatch h

theorem ok_of_check {ε α : Type} {x : Except ε α} {p : α → Bool} (h : x.toOption.any p = true) :
    ∃ a, x = .ok a ∧ p a = true := by
  cases x with
  | error e => contradiction
  | ok a => exact ⟨a, rfl, h⟩

theorem read_of_check {r : Registry} {l : String} {num : Int} {p : Instruction → Bool}
    (h : (Line.read r l num).toOption.join.any p = true) :
    ∃ i, Line.read r l num = .ok (some i) ∧ p i = true := by
  rw [Option.any_join] at h
  obtain ⟨o, ho, h⟩ := ok_of_check h
  obtain ⟨i, rfl, hp⟩ := (Option.any_eq_true _ _).1 h
  exact ⟨i, ho, hp⟩

theorem rewritten_kept :
    (∃ v text b w, ModifierGrammar.wait.read (some "1.5-02.50") = .ok v ∧
      ModifierGrammar.wait.render v = .ok text ∧ Tag.read? text.toList = some (b, []) ∧
      b.name = "wait" ∧ ModifierGrammar.wait.read b.value = .ok w ∧ w.same v = true) ∧
    (∃ i text j, Line.read (Registry.builtin.withAliases [("zauber", "ac")])
        "/ZAUBER <maxwait.1e1> Great  Strides" 0 = .ok (some i) ∧
      i.write (Registry.builtin.withAliases [("zauber", "ac")]) = .ok text ∧
      Line.read (Registry.builtin.withAliases [("zauber", "ac")]) text 0 = .ok (some j) ∧ j.SameAs i) ∧
    ∃ l' j, overrideLast (Registry.builtin.withAliases [("zauber", "ac")])
        "/zauber Focus\n/loop <maxwait.10> 2" 5 = .ok ("\n".intercalate ["/zauber Focus", l']) ∧
      Line.read (Registry.builtin.withAliases [("zauber", "ac")]) l' 1 = .ok (some j) ∧
      j.rawArgs = "5" ∧ (j.modifier? "maxwait").isSome := by
  obtain ⟨hvalues, hlines, htexts⟩ := rewritten_iff_kept [("zauber", "ac")]
  refine ⟨?_, ?_, ?_⟩
  · obtain ⟨x, y, hread, hx, hy, hpos⟩ : ∃ x y, Span.read "1.5-02.50" = .ok ⟨x, y⟩ ∧
        x.SixDigits ∧ y.SixDigits ∧ x.Positional :=
      ⟨.ofDecimal false 15 (-1), .ofDecimal false 25 (-1), by decide +kernel,
        ⟨15, -1, by decide, by decide +kernel⟩, ⟨25, -1, by decide, by decide +kernel⟩,
        .inr (by decide +kernel)⟩
    obtain ⟨spec, hspec, hname, hgrammar⟩ : ∃ spec ∈ builtinModifiers,
        spec.name = "wait" ∧ spec.grammar = .wait := ⟨_, List.mem_cons_self, rfl, rfl⟩
    have hv := ModifierGrammar.read_span hread
    have hnan : (Span.mk x y).toValue.NanFree :=
      Value.nanFree_span (Value.sixDigits_not_nan hx) (Value.sixDigits_not_nan hy)
    have hclosed : (Span.mk x y).toValue.Bracketless := by simp [Span.toValue, Value.Bracketless]
    obtain ⟨text, b, w, h⟩ := (hvalues spec hspec _ _ (hgrammar ▸ hv) hnan).2.2
      ⟨hclosed, hx, hy, hpos⟩
    rw [hname, hgrammar] at h
    exact ⟨_, text, b, w, hv, h⟩
  · have hread : (Line.read (Registry.builtin.withAliases [("zauber", "ac")])
        "/ZAUBER <maxwait.1e1> Great  Strides" 0).toOption.join.any isLimitedToTen = true := by
      decide +kernel
    obtain ⟨i, hi, hp⟩ := read_of_check hread
    obtain ⟨hnan, hkept, htags⟩ := kept_of_isLimitedToTen hp
    obtain ⟨text, hw, hiff⟩ := hlines _ _ i hi hnan
    obtain ⟨j, hj, hsame⟩ := (hiff 0).2 ⟨by simp [htags], hkept⟩
    exact ⟨i, text, j, hi, hw, hj, hsame⟩
  · have hread : ((Line.read (Registry.builtin.withAliases [("zauber", "ac")])
        "/loop <maxwait.10> 2" 1).toOption.join.any fun i =>
          isLimitedToTen i && i.command == "loop" && i.has "maxwait") = true := by
      decide +kernel
    obtain ⟨i, hi, hp⟩ := read_of_check hread
    simp only [Bool.and_eq_true, beq_iff_eq] at hp
    obtain ⟨⟨hp, hloop⟩, hhas⟩ := hp
    obtain ⟨hnan, hkept, -⟩ := kept_of_isLimitedToTen hp
    have hlast : LastLoop (Registry.builtin.withAliases [("zauber", "ac")])
        (Text.lines "/zauber Focus\n/loop <maxwait.10> 2") ["/zauber Focus"] "/loop <maxwait.10> 2" i [] :=
      ⟨by decide +kernel, hi, hloop, by simp⟩
    have hfive : 5 < 10 ^ Numeral.maxDigits :=
      Nat.lt_of_lt_of_le (by decide) (Nat.pow_le_pow_right (by decide) (by decide : 1 ≤ Numeral.maxDigits))
    obtain ⟨l', hl', hiff⟩ := (htexts _ 5 hfive).1 _ _ _ _ hlast hnan
    obtain ⟨j, hj, hsame⟩ := (hiff 1).2 hkept
    exact ⟨l', j, hl', hj, hsame.rawArgs, hsame.given hhas⟩

/-- A wait of a hundred-thousandth of a second is written with an exponent, in which the minus is read as that of a
range; and a wait of eight digits is written as another one. -/
theorem brief_wait_refused :
    (∃ v e, ModifierGrammar.wait.read (some "0.00001") = .ok v ∧ v.NanFree ∧
      ModifierGrammar.wait.render v = .ok "<wait.1e-05>" ∧
      Tag.read? "<wait.1e-05>".toList = some (⟨"wait", some "1e-05"⟩, []) ∧
      ModifierGrammar.wait.read (some "1e-05") = .error e) ∧
    (∃ v w, ModifierGrammar.wait.read (some "1.2345678") = .ok v ∧ v.NanFree ∧
      ModifierGrammar.wait.render v = .ok "<wait.1.23457>" ∧
      Tag.read? "<wait.1.23457>".toList = some (⟨"wait", some "1.23457"⟩, []) ∧
      ModifierGrammar.wait.read (some "1.23457") = .ok w ∧ w.same v = false) ∧
    ∃ i, Line.read .builtin "/ac Groundwork <wait.0.00001>" 0 = .ok (some i) ∧
      i.write .builtin = .ok "/action Groundwork <wait.1e-05>" ∧
      Line.read .builtin "/action Groundwork <wait.1e-05>" 0 =
        .error ⟨.invalidModifierValue, "<wait.1e-05>: not a duration: '1e-05'", 0⟩ := by
  refine ⟨?_, ?_, ?_⟩
  · obtain ⟨x, hread, hx, hrender⟩ : ∃ x, Span.read "0.00001" = .ok ⟨x, x⟩ ∧ x.SixDigits ∧
        ModifierGrammar.wait.render (Span.mk x x).toValue = .ok "<wait.1e-05>" :=
      ⟨.ofDecimal false 1 (-5), by decide +kernel, ⟨1, -5, by decide, by decide +kernel⟩,
        by decide +kernel⟩
    have hnan := Value.sixDigits_not_nan hx
    have herror : Span.read "1e-05" = .error (.notDuration "1e-05") := by decide +kernel
    refine ⟨_, .notDuration "1e-05", ModifierGrammar.read_span hread, Value.nanFree_span hnan hnan,
      hrender, by decide, ?_⟩
    rw [ModifierGrammar.read, ModifierGrammar.readWait, herror]
    rfl
  · obtain ⟨x, y, hread, hx, hrender, hread', hsame⟩ : ∃ x y, Span.read "1.2345678" = .ok ⟨x, x⟩ ∧
        x ≠ .nan ∧ ModifierGrammar.wait.render (Span.mk x x).toValue = .ok "<wait.1.23457>" ∧
        Span.read "1.23457" = .ok ⟨y, y⟩ ∧ (Span.mk y y).toValue.same (Span.mk x x).toValue = false :=
      ⟨.ofDecimal false 12345678 (-7), .ofDecimal false 123457 (-5), by decide +kernel, by decide +kernel,
        by decide +kernel, by decide +kernel, by decide +kernel⟩
    exact ⟨_, _, ModifierGrammar.read_span hread, Value.nanFree_span hx hx, hrender, by decide,
      ModifierGrammar.read_span hread', hsame⟩
  · have hread : ((Line.read .builtin "/ac Groundwork <wait.0.00001>" 0).toOption.join.any fun i =>
        decide (i.write .builtin = .ok "/action Groundwork <wait.1e-05>")) = true := by
      decide +kernel
    obtain ⟨i, hi, hw⟩ := read_of_check hread
    have hrefused : (Line.read .builtin "/action Groundwork <wait.1e-05>" 0).map (fun _ => ()) =
        .error ⟨.invalidModifierValue, "<wait.1e-05>: not a duration: '1e-05'", 0⟩ := by
      decide +kernel
    refine ⟨i, hi, of_decide_eq_true hw, ?_⟩
    cases hr : Line.read .builtin "/action Groundwork <wait.1e-05>" 0 with
    | error e =>
      rw [hr] at hrefused
      rw [Except.error.inj hrefused]
    | ok o =>
      rw [hr] at hrefused
      contradiction

end Macros
