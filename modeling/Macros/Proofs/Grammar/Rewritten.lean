import Macros.CraftLoop
import Macros.Proofs.Grammar.RoundTrip
import Macros.Proofs.Grammar.Times

/-!
What is left of a modifier when its line is written anew. Every value but a text with brackets is written as one
tag of the modifier's name. The tag is read as the same value unless the value is a time that six digits are
not enough for, or a wait so short that it is written with an exponent; so the lines whose times are
kept are written as lines that do the same, and so are loops with another count.
-/

namespace Macros

/-- The first instruction does what the second does: its command and argument are the same, and its
modifiers have the same values. -/
structure Instruction.SameAs (j i : Instruction) : Prop where
  command : j.command = i.command
  rawArgs : j.rawArgs = i.rawArgs
  args : j.args = i.args
  modifiers : ∀ name, Option.Rel (fun v w => v.same w = true) (j.modifier? name) (i.modifier? name)

namespace Value

/-- No number in the value is `nan`. -/
def NanFree : Value → Prop
  | number x => x ≠ .nan
  | tuple items => ∀ x, number x ∈ items → x ≠ .nan
  | _ => True

/-- No text in the value has a bracket. -/
def Bracketless : Value → Prop
  | tuple items => ∀ s, text s ∈ items → ∀ c ∈ s.toList, Tag.isValueChar c
  | _ => True

/-- Times are such that they are read back; any other value is. -/
def Kept : Value → Prop
  | number x => x.SixDigits
  | tuple [number low, number high] => (Span.mk low high).Kept
  | _ => True

theorem sixDigits_not_nan {x : Binary64} (h : x.SixDigits) : x ≠ .nan := by
  rintro rfl
  obtain ⟨n, e, -, he⟩ := h
  rw [Binary64.ofDecimal_eq] at he
  rcases Binary64.rounded_nonnegative (n * Binary64.tens e) with hr | ⟨u, hr⟩ <;>
    simp [hr, Binary64.eq] at he

theorem nanFree_span {p : Span} (hlow : p.low ≠ .nan) (hhigh : p.high ≠ .nan) : p.toValue.NanFree := by
  intro x hx
  simp only [List.mem_cons, number.injEq, List.not_mem_nil, or_false] at hx
  rcases hx with rfl | rfl
  · exact hlow
  · exact hhigh

theorem same_texts (names : List String) :
    (tuple (names.map text)).same (tuple (names.map text)) = true := by
  induction names with
  | nil => rfl
  | cons n names ih =>
    show (n == n && (tuple (names.map text)).same (tuple (names.map text))) = true
    rw [beq_self_eq_true, ih]
    rfl

end Value

namespace ModifierGrammar

open Value

/-! Values of tags. -/

theorem Stands.readsBack {g : ModifierGrammar} {name : String} {v : Value} {b : Tag}
    (h : g.Stands name v b) (hv : v.same v = true) : g.ReadsBack v b := ⟨v, h.read, hv⟩

theorem kept_texts (names : List String) : (tuple (names.map text)).Kept := by
  unfold Kept
  split
  · next h => nomatch h
  · next low high h =>
    injection h with h
    cases names with
    | nil => nomatch h
    | cons n names => nomatch (List.cons.inj h).1
  · trivial

theorem read_span {s : String} {p : Span} (h : Span.read s = .ok p) :
    wait.read (some s) = .ok p.toValue := by
  rw [read, readWait, h]
  rfl

theorem read_wait {raw : Option String} {v : Value} (h : wait.read raw = .ok v) :
    ∃ p : Span, p.Ordered ∧ v = p.toValue := by
  cases raw with
  | none => nomatch h
  | some s =>
    cases hp : Span.read s with
    | error e => simp [read, readWait, hp, Except.map] at h
    | ok p =>
      refine ⟨p, Span.ordered_of_read hp, ?_⟩
      simpa [read, readWait, hp, Except.map] using h.symm

theorem read_maxWait {raw : Option String} {v : Value} (h : maxWait.read raw = .ok v) :
    ∃ x, readMaxWait raw = .ok x ∧ v = .number x := by
  cases hx : readMaxWait raw with
  | error e => simp [read, hx, Except.map] at h
  | ok x => exact ⟨x, rfl, by simpa [read, hx, Except.map] using h.symm⟩

variable {spec : ModifierSpec} {raw : Option String} {v : Value}

/-- A value without brackets is written as one tag of the modifier's name, which is read as the same value just
if the value is kept. -/
theorem exists_renders (hspec : spec ∈ builtinModifiers) (hv : spec.grammar.read raw = .ok v)
    (hnan : v.NanFree) (hclosed : v.Bracketless) :
    ∃ b, spec.grammar.Renders spec.name v b ∧ (spec.grammar.ReadsBack v b ↔ v.Kept) := by
  simp only [builtinModifiers, List.mem_cons, List.not_mem_nil, or_false] at hspec
  obtain rfl | rfl | rfl | rfl | rfl | rfl := hspec
  · obtain ⟨p, hp, rfl⟩ := read_wait hv
    exact wait_renders hp (hnan _ (by simp)) (hnan _ (by simp))
  · have hs := unconfirmed_stands hv
    obtain rfl := readFlag_ok hv
    exact ⟨_, hs.toRenders, iff_of_true (hs.readsBack (by decide)) trivial⟩
  · have hs := echo_stands hv
    obtain rfl := readFlag_ok hv
    exact ⟨_, hs.toRenders, iff_of_true (hs.readsBack (by decide)) trivial⟩
  · obtain ⟨x, hx, rfl⟩ := read_maxWait hv
    exact maxWait_renders hx hnan
  · obtain ⟨names, hn, rfl⟩ := read_condition hv
    have hs := condition_stands_of_closed hn fun n hmem => hclosed n (List.mem_map_of_mem hmem)
    exact ⟨_, hs.toRenders, iff_of_true (hs.readsBack (same_texts names)) (kept_texts names)⟩
  · obtain ⟨value, hs⟩ := index_stands hv
    obtain ⟨n, -, rfl⟩ := read_index hv
    exact ⟨_, hs.toRenders, iff_of_true (hs.readsBack (beq_self_eq_true n)) trivial⟩

/-- Only the names of a condition can have brackets. -/
theorem bracketless_of_names (hspec : spec ∈ builtinModifiers) (hv : spec.grammar.read raw = .ok v)
    (h : ∀ names, spec.name = "condition" → spec.grammar = condition →
      readCondition raw = .ok names → v = .tuple (names.map .text) →
        ∀ n ∈ names, ∀ c ∈ n.toList, Tag.isValueChar c) : v.Bracketless := by
  simp only [builtinModifiers, List.mem_cons, List.not_mem_nil, or_false] at hspec
  obtain rfl | rfl | rfl | rfl | rfl | rfl := hspec
  · obtain ⟨p, -, rfl⟩ := read_wait hv
    simp [Span.toValue, Bracketless]
  · obtain rfl := readFlag_ok hv
    trivial
  · obtain rfl := readFlag_ok hv
    trivial
  · obtain ⟨x, -, rfl⟩ := read_maxWait hv
    trivial
  · obtain ⟨names, hn, rfl⟩ := read_condition hv
    intro s hs
    obtain ⟨n, hmem, he⟩ := List.mem_map.1 hs
    obtain rfl := Value.text.inj he
    exact h names rfl rfl hn rfl n hmem
  · obtain ⟨n, -, rfl⟩ := read_index hv
    trivial

/-- What was read from a tag has no brackets. -/
theorem bracketless_of_valid (hspec : spec ∈ builtinModifiers) {a : Tag} (ha : a.Valid)
    (hv : spec.grammar.read a.value = .ok v) : v.Bracketless := by
  refine bracketless_of_names hspec hv fun names _ _ hn _ => closed_of_read ?_ hn
  cases hval : a.value with
  | none => simp
  | some s => exact ha.value s hval

theorem Renders.unique {g : ModifierGrammar} {name : String} {b c : Tag} (hb : g.Renders name v b)
    (hc : g.Renders name v c) : b = c :=
  Tag.eq_of_whole (hb.named.trans hc.named.symm) (Except.ok.inj (hb.written.symm.trans hc.written))

theorem renders_iff {g : ModifierGrammar} {name : String} {b : Tag} : g.Renders name v b ↔
    ∃ text, g.render v = .ok text ∧ Tag.read? text.toList = some (b, []) ∧ b.name = name := by
  constructor
  · exact fun h => ⟨_, h.written, Tag.read?_iff_whole.2 ⟨h.valid, rfl⟩, h.named⟩
  · rintro ⟨text, hw, hr, hn⟩
    obtain ⟨hvalid, rfl⟩ := Tag.read?_iff_whole.1 hr
    exact ⟨hvalid, hn, hw⟩

theorem mem_intercalate_of_mem {names : List String} {n : String} (hn : n ∈ names) {c : Char}
    (hc : c ∈ n.toList) : c ∈ (",".intercalate names).toList := by
  induction names with
  | nil => simp at hn
  | cons m names ih =>
    cases names with
    | nil =>
      obtain rfl := List.mem_singleton.1 hn
      simpa using hc
    | cons k names =>
      rw [String.intercalate_cons_cons, String.toList_append, String.toList_append]
      rcases List.mem_cons.1 hn with rfl | hn
      · exact List.mem_append_left _ (List.mem_append_left _ hc)
      · exact List.mem_append_right _ (ih hn)

/-- What is written as a tag has no brackets: they would be in the value of the tag. -/
theorem bracketless_of_renders (hspec : spec ∈ builtinModifiers) (hv : spec.grammar.read raw = .ok v)
    {b : Tag} (hb : spec.grammar.Renders spec.name v b) : v.Bracketless := by
  refine bracketless_of_names hspec hv fun names hname hgrammar _ he n hn c hc => ?_
  subst he
  rw [hname, hgrammar] at hb
  have hwhole : (Tag.mk "condition" (some (",".intercalate names))).whole = b.whole := by
    have hw := hb.written
    simp only [render, renderCondition, Value.parts?, mapM_textOf] at hw
    exact Except.ok.inj hw
  obtain rfl := Tag.eq_of_whole hb.named.symm hwhole
  exact hb.valid.value _ rfl c (mem_intercalate_of_mem hn hc)

theorem renders_iff_bracketless (hspec : spec ∈ builtinModifiers)
    (hv : spec.grammar.read raw = .ok v) (hnan : v.NanFree) :
    (∃ b, spec.grammar.Renders spec.name v b) ↔ v.Bracketless :=
  ⟨fun ⟨_, hb⟩ => bracketless_of_renders hspec hv hb,
    fun h => (exists_renders hspec hv hnan h).imp fun _ hb => hb.1⟩

theorem readsBack_iff_kept (hspec : spec ∈ builtinModifiers)
    (hv : spec.grammar.read raw = .ok v) (hnan : v.NanFree) :
    (∃ b, spec.grammar.Renders spec.name v b ∧ spec.grammar.ReadsBack v b) ↔
      v.Bracketless ∧ v.Kept := by
  constructor
  · rintro ⟨b, hb, hback⟩
    have hclosed := bracketless_of_renders hspec hv hb
    obtain ⟨c, hc, hiff⟩ := exists_renders hspec hv hnan hclosed
    obtain rfl := hb.unique hc
    exact ⟨hclosed, hiff.1 hback⟩
  · rintro ⟨hclosed, hkept⟩
    obtain ⟨b, hb, hiff⟩ := exists_renders hspec hv hnan hclosed
    exact ⟨b, hb, hiff.2 hkept⟩

end ModifierGrammar

theorem Instruction.SameAs.given {j i : Instruction} (h : j.SameAs i) {name : String}
    (hi : (i.modifier? name).isSome) : (j.modifier? name).isSome := by
  have hrel := h.modifiers name
  generalize j.modifier? name = v at hrel ⊢
  generalize i.modifier? name = w at hrel hi
  cases hrel with
  | some _ => rfl
  | none => exact hi

namespace Line

open ModifierGrammar

variable {aliases : List (String × String)} {r : Registry} {line : Int}

/-! What reading takes from an argument. -/

/-- What a piece of the argument leaves there. -/
def leftover (r : Registry) : Tag.Piece → List Char
  | .plain c => [c]
  | .tag a => if (r.modifier? a.name).isSome then [' '] else a.whole.toList

theorem takePiece_ok {t u : Taken} {p : Tag.Piece} (h : takePiece r line t p = .ok u) :
    u.rest = (leftover r p).reverse ++ t.rest ∧
      ∀ a spec, p = .tag a → r.modifier? a.name = some spec →
        ∃ w, spec.grammar.read a.value = .ok w := by
  obtain ⟨rfl, hn⟩ | ⟨a, spec, v, rfl, hs, -, hv, rfl⟩ := takePiece_cases h
  · refine ⟨?_, fun a spec ha hs => ?_⟩
    · cases p with
      | plain c => rfl
      | tag a => simp [leftover, hn a rfl, Tag.Piece.chars]
    · rw [hn a ha] at hs
      contradiction
  · refine ⟨by simp [leftover, hs], fun b spec' hb hspec => ?_⟩
    obtain rfl := Tag.Piece.tag.inj hb
    obtain rfl := Option.some.inj (hs.symm.trans hspec)
    exact ⟨v, hv⟩

theorem takePieces_ok {ps : List Tag.Piece} {t u : Taken}
    (h : ps.foldlM (takePiece r line) t = .ok u) :
    u.rest = (ps.flatMap (leftover r)).reverse ++ t.rest ∧
      ∀ a spec, .tag a ∈ ps → r.modifier? a.name = some spec →
        ∃ w, spec.grammar.read a.value = .ok w := by
  induction ps generalizing t with
  | nil =>
    obtain rfl := Except.ok.inj h
    exact ⟨rfl, fun a spec ha => absurd ha List.not_mem_nil⟩
  | cons p ps ih =>
    rw [List.foldlM_cons] at h
    cases hp : takePiece r line t p with
    | error e =>
      rw [hp] at h
      nomatch h
    | ok t' =>
      rw [hp] at h
      obtain ⟨hrest, hread⟩ := takePiece_ok hp
      obtain ⟨hrest', hread'⟩ := ih h
      refine ⟨by rw [hrest', hrest]; simp, fun a spec ha hs => ?_⟩
      rcases List.mem_cons.1 ha with ha | ha
      · exact hread a spec ha.symm hs
      · exact hread' a spec ha hs

theorem takeModifiers_ok {s : List Char} {m : Table Value} {raw : String}
    (h : takeModifiers r line s = .ok (m, raw)) :
    raw.toList = Text.spaced ((Tag.pieces s).flatMap (leftover r)) ∧
      ∀ a spec, .tag a ∈ Tag.pieces s → r.modifier? a.name = some spec →
        ∃ w, spec.grammar.read a.value = .ok w := by
  obtain ⟨u, hu, -, rfl⟩ := takeModifiers_fold h
  obtain ⟨hrest, hread⟩ := takePieces_ok hu
  refine ⟨?_, hread⟩
  rw [hrest, List.append_nil, List.reverse_reverse, Text.toList_spaced]

/-- How many characters of a text are not blank. -/
def ink (s : List Char) : Nat := (s.filter (!Text.isBlank ·)).length

theorem ink_append (s t : List Char) : ink (s ++ t) = ink s + ink t := by
  simp [ink]

theorem ink_spaced (s : List Char) : ink (Text.spaced s) = ink s := by
  rw [ink, Text.filter_spaced, ink]

theorem ink_whole (a : Tag) : 0 < ink a.whole.toList := by
  have hopen : Text.isBlank '<' = false := by decide
  simp [ink, hopen]

theorem ink_leftover (p : Tag.Piece) : ink (leftover r p) ≤ ink p.chars := by
  cases p with
  | plain c => exact Nat.le_refl _
  | tag a =>
    rw [leftover]
    split
    · exact Nat.zero_le _
    · exact Nat.le_refl _

theorem ink_leftovers (ps : List Tag.Piece) :
    ink (ps.flatMap (leftover r)) ≤ ink (ps.flatMap Tag.Piece.chars) := by
  induction ps with
  | nil => exact Nat.le_refl _
  | cons p ps ih =>
    rw [List.flatMap_cons, List.flatMap_cons, ink_append, ink_append]
    exact Nat.add_le_add (ink_leftover p) ih

/-- Where nothing is missing, no known tag was taken. -/
theorem unknown_of_ink {ps : List Tag.Piece}
    (h : ink (ps.flatMap Tag.Piece.chars) ≤ ink (ps.flatMap (leftover r))) :
    ∀ a, .tag a ∈ ps → r.modifier? a.name = none := by
  induction ps with
  | nil => exact fun a ha => absurd ha List.not_mem_nil
  | cons p ps ih =>
    rw [List.flatMap_cons, List.flatMap_cons, ink_append, ink_append] at h
    have hp : ink (leftover r p) ≤ ink p.chars := ink_leftover p
    have hps : ink (ps.flatMap (leftover r)) ≤ ink (ps.flatMap Tag.Piece.chars) := ink_leftovers ps
    intro a ha
    rcases List.mem_cons.1 ha with rfl | ha
    · by_contra hknown
      have hleft : ink (leftover r (.tag a)) = 0 := by
        rw [leftover, if_pos (Option.isSome_iff_ne_none.2 hknown)]
        decide
      have hwhole : 0 < ink (Tag.Piece.tag a).chars := ink_whole a
      omega
    · exact ih (by omega) a ha

theorem mem_tags_behind (tags : List Tag) :
    (∀ b ∈ tags, Tag.Piece.tag b ∈ tags.flatMap fun b => [Tag.Piece.plain ' ', .tag b]) ∧
      ∀ p ∈ tags.flatMap fun b => [Tag.Piece.plain ' ', .tag b],
        p = .plain ' ' ∨ ∃ b ∈ tags, p = .tag b := by
  refine ⟨fun b hb => List.mem_flatMap.2 ⟨b, hb, by simp⟩, fun p hp => ?_⟩
  obtain ⟨b, hb, hp⟩ := List.mem_flatMap.1 hp
  simp only [List.mem_cons, List.not_mem_nil, or_false] at hp
  exact hp.imp_right fun hp => ⟨b, hb, hp⟩

/-- The pieces of what stands behind the command word of a written line. -/
theorem pieces_written {s : List Char} (ht : Text.Trimmed s) {tags : List Tag}
    (hvalid : ∀ b ∈ tags, b.Valid) :
    ∃ ps, Tag.pieces (Text.trimStartChars (lead s ++ Tag.behind tags)) = Tag.pieces s ++ ps ∧
      (∀ b ∈ tags, .tag b ∈ ps) ∧ ∀ p ∈ ps, p = .plain ' ' ∨ ∃ b ∈ tags, p = .tag b := by
  by_cases hne : s = []
  · subst hne
    rw [Tag.pieces_nil]
    cases tags with
    | nil => exact ⟨[], by simp [lead, Tag.behind, Text.trimStartChars], by simp⟩
    | cons b tags =>
      obtain ⟨hb, hvalid⟩ := List.forall_mem_cons.1 hvalid
      obtain ⟨hin, hout⟩ := mem_tags_behind tags
      refine ⟨.tag b :: tags.flatMap fun b => [.plain ' ', .tag b], ?_, ?_, ?_⟩
      · rw [trimStart_behind, Tag.pieces_whole hb, Tag.pieces_behind hvalid, List.nil_append]
      · exact List.forall_mem_cons.2 ⟨List.mem_cons_self, fun c hc => List.mem_cons_of_mem _ (hin c hc)⟩
      · refine List.forall_mem_cons.2 ⟨.inr ⟨b, List.mem_cons_self, rfl⟩, fun p hp => ?_⟩
        refine (hout p hp).imp_right ?_
        rintro ⟨c, hc, he⟩
        exact ⟨c, List.mem_cons_of_mem b hc, he⟩
  · refine ⟨_, ?_, mem_tags_behind tags⟩
    rw [trimStart_lead ht hne, Tag.pieces_append _ (Tag.seam_behind tags), Tag.pieces_behind hvalid]

/-- If a written line is read and its argument is the same again, then the argument has no known tags, and
every tag behind it could be read. -/
theorem written_of_takeModifiers {s : List Char} (ht : Text.Trimmed s) {tags : List Tag}
    (hvalid : ∀ b ∈ tags, b.Valid) (hknown : ∀ b ∈ tags, (r.modifier? b.name).isSome)
    {m : Table Value} {raw : String}
    (h : takeModifiers r line (Text.trimStartChars (lead s ++ Tag.behind tags)) = .ok (m, raw))
    (hraw : raw.toList = s) :
    (∀ a, .tag a ∈ Tag.pieces s → r.modifier? a.name = none) ∧
      ∀ b ∈ tags, ∀ spec, r.modifier? b.name = some spec → ∃ w, spec.grammar.read b.value = .ok w := by
  obtain ⟨ps, hps, hin, hout⟩ := pieces_written ht hvalid
  obtain ⟨htaken, hread⟩ := takeModifiers_ok h
  rw [hps] at htaken hread
  refine ⟨unknown_of_ink ?_, fun b hb spec => hread b spec (List.mem_append_right _ (hin b hb))⟩
  have hblanks : ink (ps.flatMap (leftover r)) = 0 := by
    rw [ink, List.length_eq_zero_iff, List.filter_eq_nil_iff]
    intro c hc
    obtain ⟨p, hp, hc⟩ := List.mem_flatMap.1 hc
    obtain rfl : c = ' ' := by
      obtain rfl | ⟨b, hb, rfl⟩ := hout p hp
      · exact List.mem_singleton.1 hc
      · rw [leftover, if_pos (hknown b hb)] at hc
        exact List.mem_singleton.1 hc
    decide
  have hink : ink s = ink ((Tag.pieces s).flatMap (leftover r)) := by
    conv_lhs => rw [← hraw, htaken]
    rw [ink_spaced, List.flatMap_append, ink_append, hblanks, Nat.add_zero]
  rw [Tag.chars_pieces, hink]

/-! What is written. -/

/-- The tag that a modifier is written as. It is read as the same value just if the value is kept. -/
structure Written (r : Registry) (e : String × Value) (b : Tag) : Prop where
  valid : b.Valid
  rendered : r.renderModifier e.1 e.2 = .ok b.whole
  known : ∃ spec, r.modifier? b.name = some spec ∧ spec.name = e.1 ∧
    (spec.grammar.ReadsBack e.2 b ↔ e.2.Kept)

theorem written_of_gathered {m : Table Value} (h : Gathered (Registry.builtin.withAliases aliases) m)
    (hnan : ∀ e ∈ m, e.2.NanFree) :
    ∀ e ∈ m, ∃ b, Written (Registry.builtin.withAliases aliases) e b := by
  intro e he
  obtain ⟨a, spec, ha, hs, hn, hv⟩ := h.read e he
  rw [Registry.modifier?_builtin] at hs
  have hspec := Registry.mem_builtinModifiers hs
  obtain ⟨b, hb, hiff⟩ := exists_renders hspec hv (hnan e he) (bracketless_of_valid hspec ha hv)
  exact ⟨b, hb.valid, hn ▸ Registry.renderModifier_found hs hb.written, spec,
    by rw [hb.named, Registry.modifier?_found hs], hn, hiff⟩

/-- The second entry is what the first one is read back as. -/
structure Rereads (e e' : String × Value) : Prop where
  name : e'.1 = e.1
  same : e'.2.same e.2 = true ↔ e.2.Kept

variable {es : List (String × Value)} {tags : List Tag}

theorem exists_written (h : List.Forall₂ (Written r) es tags) :
    ∀ b ∈ tags, ∃ e ∈ es, Written r e b := by
  induction h with
  | nil => simp
  | @cons e b es tags hb _ ih =>
    refine List.forall_mem_cons.2 ⟨⟨e, List.mem_cons_self, hb⟩, fun c hc => ?_⟩
    obtain ⟨d, hd, hdc⟩ := ih c hc
    exact ⟨d, List.mem_cons_of_mem e hd, hdc⟩

/-- Tags that are all read are read as entries of the same names. -/
theorem exists_means (h : List.Forall₂ (Written r) es tags)
    (hread : ∀ b ∈ tags, ∀ spec, r.modifier? b.name = some spec →
      ∃ w, spec.grammar.read b.value = .ok w) :
    ∃ es', List.Forall₂ (Means r) es' tags ∧ List.Forall₂ Rereads es es' := by
  induction h with
  | nil => exact ⟨[], .nil, .nil⟩
  | @cons e b es tags hb _ ih =>
    obtain ⟨hb', hread⟩ := List.forall_mem_cons.1 hread
    obtain ⟨es', hmeans, hsame⟩ := ih hread
    obtain ⟨spec, hs, hn, hiff⟩ := hb.known
    obtain ⟨w, hw⟩ := hb' spec hs
    refine ⟨(e.1, w) :: es', .cons ⟨hb.valid, spec, hs, hn, hw⟩ hmeans, .cons ⟨rfl, ?_⟩ hsame⟩
    rw [← hiff]
    constructor
    · exact fun h => ⟨w, hw, h⟩
    · rintro ⟨w', hw', h⟩
      obtain rfl := Except.ok.inj (hw.symm.trans hw')
      exact h

theorem keys_of_rereads {es' : List (String × Value)} (h : List.Forall₂ Rereads es es') :
    Table.keys es' = Table.keys es := by
  induction h with
  | nil => rfl
  | cons he _ ih => exact List.cons_eq_cons.2 ⟨he.name, ih⟩

theorem get?_of_not_mem {t : Table Value} {k : String} (h : k ∉ t.keys) : t.get? k = none := by
  rw [← Option.not_isSome_iff_eq_none]
  exact fun hs => h (Table.has_iff.1 hs)

/-- What was read back has the same values just if all of them are kept. -/
theorem same_iff_kept {es' : List (String × Value)} (h : List.Forall₂ Rereads es es')
    (honce : (Table.keys es).Nodup) :
    (∀ name, Option.Rel (fun v w => v.same w = true) (Table.get? es' name) (Table.get? es name)) ↔
      ∀ e ∈ es, e.2.Kept := by
  induction h with
  | nil => exact iff_of_true (fun _ => .none) (by simp)
  | @cons e e' es es' he htail ih =>
    obtain ⟨name, v⟩ := e
    obtain ⟨name', w⟩ := e'
    obtain ⟨rfl, hsame⟩ := he
    obtain ⟨hnew, honce⟩ := List.nodup_cons.1 honce
    have hnew' : name' ∉ Table.keys es' := by rwa [keys_of_rereads htail]
    rw [List.forall_mem_cons, ← ih honce, ← hsame]
    constructor
    · intro h
      refine ⟨?_, fun name => ?_⟩
      · have hhead := h name'
        rw [Table.get?_cons, Table.get?_cons, if_pos rfl, if_pos rfl] at hhead
        cases hhead with
        | some hvw => exact hvw
      · by_cases hname : name = name'
        · rw [hname, get?_of_not_mem hnew, get?_of_not_mem hnew']
          exact .none
        · have htail := h name
          rwa [Table.get?_cons, Table.get?_cons, if_neg hname, if_neg hname] at htail
    · rintro ⟨hvw, htail⟩ name
      rw [Table.get?_cons, Table.get?_cons]
      split
      · exact .some hvw
      · exact htail name

theorem finish_ok {spec : CommandSpec} {head l : String} {j : Instruction}
    {x : Except ParseError (Table Value × String)} (h : finish spec head l line x = .ok (some j)) :
    x = .ok (j.modifiers, j.rawArgs) := by
  unfold finish at h
  split at h
  · nomatch h
  · split at h
    · nomatch h
    · obtain rfl := Option.some.inj (Except.ok.inj h)
      rfl

variable {i : Instruction} {spec : CommandSpec}

/-- Once all tags are read, and nothing is taken from the argument, only the values can differ. -/
theorem assembled_iff_of_read (hp : Parsed (Registry.builtin.withAliases aliases) i spec)
    (hperm : es.Perm i.modifiers)
    (htags : List.Forall₂ (Written (Registry.builtin.withAliases aliases)) es tags)
    (hraw : ∀ a ∈ Tag.findAll i.rawArgs,
      (Registry.builtin.withAliases aliases).modifier? a.name = none)
    (hall : ∀ b ∈ tags, ∀ spec, (Registry.builtin.withAliases aliases).modifier? b.name = some spec →
      ∃ w, spec.grammar.read b.value = .ok w) (num : Int) :
    (∃ j, read (Registry.builtin.withAliases aliases) (i.assemble (tags.map Tag.whole)) num =
        .ok (some j) ∧ j.SameAs i) ↔ ∀ e ∈ es, e.2.Kept := by
  obtain ⟨token, hres⟩ := hp.resolved
  obtain ⟨s, hs⟩ := hp.spaced
  obtain ⟨es', hmeans, hrereads⟩ := exists_means htags hall
  have honce : (Table.keys es).Nodup := (hperm.map Prod.fst).nodup_iff.2 hp.gathered.once
  have honce' : (Table.keys es').Nodup := by rwa [keys_of_rereads hrereads]
  have hj := read_assemble hres hp.command hp.args hs hraw hmeans honce' num
  have hget : ∀ name, Table.get? es name = i.modifiers.get? name :=
    Table.get?_perm hp.gathered.once hperm
  rw [← same_iff_kept hrereads honce]
  simp only [hget]
  constructor
  · rintro ⟨j, hj', hsame⟩
    obtain rfl := Option.some.inj (Except.ok.inj (hj.symm.trans hj'))
    exact hsame.modifiers
  · exact fun h => ⟨_, hj, rfl, rfl, rfl, h⟩

/-- A line that was put together is read as the same instruction just if its argument has no known tags and
its modifiers are kept. -/
theorem assembled_iff_kept (hp : Parsed (Registry.builtin.withAliases aliases) i spec)
    (hperm : es.Perm i.modifiers)
    (htags : List.Forall₂ (Written (Registry.builtin.withAliases aliases)) es tags) (num : Int) :
    (∃ j, read (Registry.builtin.withAliases aliases) (i.assemble (tags.map Tag.whole)) num =
        .ok (some j) ∧ j.SameAs i) ↔
      (∀ a ∈ Tag.findAll i.rawArgs, (Registry.builtin.withAliases aliases).modifier? a.name = none) ∧
        ∀ e ∈ i.modifiers, e.2.Kept := by
  obtain ⟨token, hres⟩ := hp.resolved
  have htrim : Text.Trimmed i.rawArgs.toList := by
    obtain ⟨s, hs⟩ := hp.spaced
    rw [hs, Text.toList_spaced]
    exact Text.trimmed_spaced s
  have hkept : (∀ e ∈ i.modifiers, e.2.Kept) ↔ ∀ e ∈ es, e.2.Kept :=
    forall_congr' fun e => by rw [hperm.mem_iff]
  have hwritten := exists_written htags
  rw [hkept]
  constructor
  · rintro ⟨j, hj, hsame⟩
    have htake := finish_ok ((read_assembled hres hp.command htrim tags num).symm.trans hj)
    obtain ⟨hunknown, hall⟩ := written_of_takeModifiers htrim
      (fun b hb => (hwritten b hb).elim fun _ he => he.2.valid)
      (fun b hb => by
        obtain ⟨e, -, -, -, spec, hs, -⟩ := hwritten b hb
        rw [hs]
        rfl)
      htake (by rw [hsame.rawArgs])
    have hraw : ∀ a ∈ Tag.findAll i.rawArgs,
        (Registry.builtin.withAliases aliases).modifier? a.name = none :=
      fun a ha => hunknown a (Tag.mem_findAll.1 ha)
    exact ⟨hraw, (assembled_iff_of_read hp hperm htags hraw hall num).1 ⟨j, hj, hsame⟩⟩
  · rintro ⟨hraw, hall⟩
    refine (assembled_iff_of_read hp hperm htags hraw (fun b hb spec hs => ?_) num).2 hall
    obtain ⟨e, he, hb⟩ := hwritten b hb
    obtain ⟨spec', hs', -, hiff⟩ := hb.known
    obtain rfl := Option.some.inj (hs'.symm.trans hs)
    obtain ⟨w, hw, -⟩ := hiff.2 (hall e he)
    exact ⟨w, hw⟩

/-- An instruction whose parts fit each other as after reading is written as a line that is read as the same
instruction just if its argument has no known tags and its modifiers are kept. -/
theorem write_iff_kept (hp : Parsed (Registry.builtin.withAliases aliases) i spec)
    (hnan : ∀ e ∈ i.modifiers, e.2.NanFree) :
    ∃ text, i.write (Registry.builtin.withAliases aliases) = .ok text ∧ ∀ num,
      (∃ j, read (Registry.builtin.withAliases aliases) text num = .ok (some j) ∧ j.SameAs i) ↔
        (∀ a ∈ Tag.findAll i.rawArgs,
          (Registry.builtin.withAliases aliases).modifier? a.name = none) ∧
          ∀ e ∈ i.modifiers, e.2.Kept := by
  have hperm := sortedModifiers_perm i
  have hwritten := written_of_gathered hp.gathered hnan
  obtain ⟨tags, htags⟩ := exists_tags fun e (he : e ∈ i.sortedModifiers) =>
    hwritten e (hperm.mem_iff.1 he)
  refine ⟨i.assemble (tags.map Tag.whole), ?_, assembled_iff_kept hp hperm htags⟩
  rw [Instruction.write, renderModifiers_ok (htags.imp fun _ _ => Written.rendered)]
  rfl

end Line

end Macros
