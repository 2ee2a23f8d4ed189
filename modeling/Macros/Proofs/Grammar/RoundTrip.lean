import Macros.Proofs.Grammar.Read
import Macros.Proofs.Grammar.Values
import Macros.Proofs.Table
import Mathlib.Data.List.Forall2

/-!
An instruction is read back from the line it is written as. The line has the argument, its words
already parted by single spaces, and behind it the tags of the modifiers. Whatever looks like a tag in the
argument has an unknown name and stays where it is; then the tags are taken one after the other.
-/

namespace Macros

namespace Line

variable {r : Registry} {line : Int}

/-! What was read. -/

/-- Modifiers that were read from tags, none given twice. -/
structure Gathered (r : Registry) (t : Table Value) : Prop where
  once : t.keys.Nodup
  read : ∀ e ∈ t, ∃ (a : Tag) (spec : ModifierSpec), a.Valid ∧ r.modifier? a.name = some spec ∧
    spec.name = e.1 ∧ spec.grammar.read a.value = .ok e.2

theorem takePieces_gathered {s : List Char} {u : Taken}
    (h : (Tag.pieces s).foldlM (takePiece r line) ⟨[], []⟩ = .ok u) : Gathered r u.modifiers where
  once := by
    refine takePieces_keeps (P := fun t => t.modifiers.keys.Nodup) (fun p _ t u hu ht => ?_) h
      List.nodup_nil
    obtain ⟨rfl, -⟩ | ⟨a, spec, v, -, -, -, -, rfl⟩ := takePiece_cases hu
    · exact ht
    · exact Table.nodup_put ht _ _
  read := fun e he => by
    obtain ⟨a, spec, ha, hs⟩ := takePieces_given h e he
    exact ⟨a, spec, Tag.valid_of_mem_pieces ha, hs⟩

/-- What reading an instruction has found out. -/
structure Parsed (r : Registry) (i : Instruction) (spec : CommandSpec) : Prop where
  resolved : ∃ token, r.resolve token = some spec
  command : i.command = spec.name
  args : spec.grammar.read i.rawArgs = .ok i.args
  spaced : ∃ s, i.rawArgs = " ".intercalate ((Text.wordsChars s).map String.ofList)
  gathered : Gathered r i.modifiers

theorem readHead_ok {head : List Char} {spec : CommandSpec} (h : readHead r line head = .ok spec) :
    ∃ token, r.resolve token = some spec := by
  unfold readHead at h
  split at h
  · split at h
    · next token _ hres =>
      obtain rfl := Except.ok.inj h
      exact ⟨_, hres⟩
    · contradiction
  · contradiction

theorem read_parsed {l : String} {k : Int} {i : Instruction} (h : read r l k = .ok (some i)) :
    ∃ spec, Parsed r i spec := by
  obtain ⟨spec, hi⟩ := read_some h
  obtain ⟨t, ht, hm, hraw⟩ := takeModifiers_fold hi.taken
  exact ⟨spec, readHead_ok hi.head, hi.command, hi.args, ⟨_, hraw⟩, hm ▸ takePieces_gathered ht⟩

theorem sortedModifiers_perm (i : Instruction) : i.sortedModifiers.Perm i.modifiers :=
  List.mergeSort_perm _ _

/-- A tag that the registry knows and whose value its grammar reads is taken, unless its modifier has been
given before. -/
theorem takePiece_known {a : Tag} {e : String × Value} (h : ∃ spec, r.modifier? a.name = some spec ∧
    spec.name = e.1 ∧ spec.grammar.read a.value = .ok e.2) (t : Taken) :
    takePiece r line t (.tag a) =
      if e.1 ∈ t.modifiers.keys then
        .error ⟨.duplicateModifier, "<" ++ e.1 ++ "> given more than once", line⟩
      else .ok ⟨t.modifiers ++ [e], ' ' :: t.rest⟩ := by
  obtain ⟨spec, hs, hn, hv⟩ := h
  simp only [takePiece, hs, hv, hn, Table.has_iff]
  split
  · rfl
  · next ht => rw [Table.put_new ht]

/-! What is written. -/

/-- The tag is read as the modifier. -/
structure Means (r : Registry) (e : String × Value) (b : Tag) : Prop where
  valid : b.Valid
  read : ∃ spec, r.modifier? b.name = some spec ∧ spec.name = e.1 ∧
    spec.grammar.read b.value = .ok e.2

/-- The tag is what the modifier is written as, and is read as the modifier. -/
structure Stands (r : Registry) (e : String × Value) (b : Tag) : Prop extends Means r e b where
  written : r.renderModifier e.1 e.2 = .ok b.whole

variable {es : List (String × Value)} {tags : List Tag}

theorem exists_tags {P : String × Value → Tag → Prop} (h : ∀ e ∈ es, ∃ b, P e b) :
    ∃ tags, List.Forall₂ P es tags := by
  induction es with
  | nil => exact ⟨[], .nil⟩
  | cons e es ih =>
    obtain ⟨b, hb⟩ := h e List.mem_cons_self
    obtain ⟨tags, ht⟩ := ih fun d hd => h d (List.mem_cons_of_mem e hd)
    exact ⟨b :: tags, .cons hb ht⟩

theorem forall_of_tags {P : Tag → Prop} (h : List.Forall₂ (fun _ b => P b) es tags) : ∀ b ∈ tags, P b := by
  induction h with
  | nil => exact List.forall_mem_nil _
  | cons hb _ ih => exact List.forall_mem_cons.2 ⟨hb, ih⟩

theorem valid_of_means (h : List.Forall₂ (Means r) es tags) : ∀ b ∈ tags, b.Valid :=
  forall_of_tags (h.imp fun _ _ hb => hb.valid)

theorem renderModifiers_ok
    (h : List.Forall₂ (fun e (b : Tag) => r.renderModifier e.1 e.2 = .ok b.whole) es tags) :
    (es.mapM fun (name, v) => r.renderModifier name v) = .ok (tags.map Tag.whole) := by
  induction h with
  | nil => rfl
  | cons hb _ ih =>
    rw [List.mapM_cons, ih]
    simp only [hb]
    rfl

/-- Tags that are unknown stay where they are. -/
theorem takePieces_unknown {ps : List Tag.Piece}
    (h : ∀ a, .tag a ∈ ps → r.modifier? a.name = none) (t : Taken) :
    ps.foldlM (takePiece r line) t =
      .ok ⟨t.modifiers, (ps.flatMap Tag.Piece.chars).reverse ++ t.rest⟩ := by
  induction ps generalizing t with
  | nil => rfl
  | cons p ps ih =>
    have hp : takePiece r line t p = .ok ⟨t.modifiers, p.chars.reverse ++ t.rest⟩ := by
      cases p with
      | plain c => rfl
      | tag a => simp only [takePiece, h a List.mem_cons_self]; rfl
    rw [List.foldlM_cons, hp]
    refine (ih (fun a ha => h a (List.mem_cons_of_mem p ha)) _).trans ?_
    simp

theorem takePiece_means {e : String × Value} {b : Tag} (h : Means r e b) {t : Taken}
    (ht : e.1 ∉ t.modifiers.keys) :
    takePiece r line t (.tag b) = .ok ⟨t.modifiers ++ [e], ' ' :: t.rest⟩ := by
  rw [takePiece_known h.read, if_neg ht]

/-- The tags behind an argument are taken one after the other, and leave blanks. -/
theorem takePieces_means (line : Int) (h : List.Forall₂ (Means r) es tags) {t : Taken}
    (ht : (t.modifiers ++ es).keys.Nodup) :
    ∃ blanks, (∀ c ∈ blanks, Text.isBlank c) ∧
      (tags.flatMap fun b => [Tag.Piece.plain ' ', .tag b]).foldlM (takePiece r line) t =
        .ok ⟨t.modifiers ++ es, blanks ++ t.rest⟩ := by
  induction h generalizing t with
  | nil => exact ⟨[], by simp, by simp; rfl⟩
  | @cons e b es tags hb _ ih =>
    have he : e.1 ∉ t.modifiers.keys := by
      rw [Table.keys, List.map_append, List.nodup_append] at ht
      exact fun hm => ht.2.2 e.1 hm e.1 (by simp) rfl
    obtain ⟨blanks, hblank, hfold⟩ := ih (t := ⟨t.modifiers ++ [e], ' ' :: ' ' :: t.rest⟩)
      (by simpa using ht)
    refine ⟨blanks ++ [' ', ' '], ?_, ?_⟩
    · intro c hc
      rcases List.mem_append.1 hc with hc | hc
      · exact hblank c hc
      · have : c = ' ' := by simpa using hc
        rw [this]
        decide
    · have hplain : takePiece r line t (.plain ' ') = .ok ⟨t.modifiers, ' ' :: t.rest⟩ := rfl
      have htag : takePiece r line ⟨t.modifiers, ' ' :: t.rest⟩ (.tag b) =
          .ok ⟨t.modifiers ++ [e], ' ' :: ' ' :: t.rest⟩ := takePiece_means hb he
      rw [List.flatMap_cons, List.cons_append, List.cons_append, List.nil_append,
        List.foldlM_cons, hplain]
      change (Tag.Piece.tag b :: _).foldlM (takePiece r line) _ = _
      rw [List.foldlM_cons, htag]
      refine hfold.trans ?_
      simp

theorem takeModifiers_of_fold {s : List Char} (x : List Char) {blanks : List Char} {m : Table Value}
    (h : (Tag.pieces s).foldlM (takePiece r line) ⟨[], []⟩ = .ok ⟨m, blanks ++ x.reverse⟩)
    (hb : ∀ c ∈ blanks, Text.isBlank c) :
    takeModifiers r line s =
      .ok (m, " ".intercalate ((Text.wordsChars x).map String.ofList)) := by
  have hw : Text.wordsChars (blanks ++ x.reverse).reverse = Text.wordsChars x := by
    rw [List.reverse_append, List.reverse_reverse]
    exact Text.wordsChars_append_blanks x fun c hc => hb c (List.mem_reverse.1 hc)
  simp only [takeModifiers, h, hw]

/-- An argument whose tags are unknown, with the tags of the modifiers behind it. -/
theorem takeModifiers_behind (h : List.Forall₂ (Means r) es tags) (hes : (Table.keys es).Nodup)
    {s : List Char} (hs : ∀ a, .tag a ∈ Tag.pieces s → r.modifier? a.name = none) :
    takeModifiers r line (s ++ Tag.behind tags) =
      .ok (es, " ".intercalate ((Text.wordsChars s).map String.ofList)) := by
  obtain ⟨blanks, hb, hfold⟩ :=
    takePieces_means line h (t := ⟨[], s.reverse⟩) (by simpa using hes)
  refine takeModifiers_of_fold s ?_ hb
  rw [Tag.pieces_append s (Tag.seam_behind tags), Tag.pieces_behind (valid_of_means h),
    List.foldlM_append, takePieces_unknown hs, Tag.chars_pieces, List.append_nil]
  exact hfold

/-- The tags of the modifiers alone, the first one without the blank in front. -/
theorem takeModifiers_tags {e : String × Value} {b : Tag} (hb : Means r e b)
    (h : List.Forall₂ (Means r) es tags) (hes : (Table.keys (e :: es)).Nodup) :
    takeModifiers r line (b.whole.toList ++ Tag.behind tags) = .ok (e :: es, "") := by
  obtain ⟨blanks, hblank, hfold⟩ :=
    takePieces_means line h (t := ⟨[e], [' ']⟩) (by simpa using hes)
  have hblanks : ∀ c ∈ blanks ++ [' '], Text.isBlank c := fun c hc => by
    rcases List.mem_append.1 hc with hc | hc
    · exact hblank c hc
    · rw [List.mem_singleton.1 hc]
      decide
  have htag : takePiece r line ⟨[], []⟩ (.tag b) = .ok ⟨[e], [' ']⟩ :=
    takePiece_means hb (t := ⟨[], []⟩) (by simp [Table.keys])
  refine takeModifiers_of_fold [] ?_ hblanks
  rw [Tag.pieces_whole hb.valid, Tag.pieces_behind (valid_of_means h), List.foldlM_cons, htag]
  exact hfold.trans (by simp)

/-- An argument behind a command word, with a blank in front if there is one. -/
def lead (s : List Char) : List Char := if s.isEmpty then [] else ' ' :: s

theorem trimStart_lead {s : List Char} (ht : Text.Trimmed s) (hs : s ≠ []) (tags : List Tag) :
    Text.trimStartChars (lead s ++ Tag.behind tags) = s ++ Tag.behind tags := by
  obtain ⟨c, s, rfl⟩ := List.exists_cons_of_ne_nil hs
  have hblank : Text.isBlank ' ' = true := by decide
  have hc : Text.isBlank c = false := ht.first c rfl
  simp [lead, Text.trimStartChars, hblank, hc]

theorem trimStart_behind (b : Tag) (tags : List Tag) :
    Text.trimStartChars (lead [] ++ Tag.behind (b :: tags)) = b.whole.toList ++ Tag.behind tags := by
  have hblank : Text.isBlank ' ' = true := by decide
  have hopen : Text.isBlank '<' = false := by decide
  simp [lead, Tag.behind, Text.trimStartChars, hblank, hopen]

/-- What stands behind the command word of a written line is taken apart as it was put together. -/
theorem takeModifiers_written (h : List.Forall₂ (Means r) es tags) (hes : (Table.keys es).Nodup)
    {s : List Char} (ht : Text.Trimmed s)
    (hs : ∀ a, .tag a ∈ Tag.pieces s → r.modifier? a.name = none) :
    takeModifiers r line (Text.trimStartChars (lead s ++ Tag.behind tags)) =
      .ok (es, " ".intercalate ((Text.wordsChars s).map String.ofList)) := by
  by_cases hne : s = []
  · subst hne
    cases h with
    | nil => exact takeModifiers_behind .nil hes hs
    | @cons e b es tags hb h =>
      rw [trimStart_behind]
      exact takeModifiers_tags hb h hes
  · rw [trimStart_lead ht hne]
    exact takeModifiers_behind h hes hs

end Line

/-! The built-in registry with aliases. -/

namespace Registry

/-- The commands and tags are the same, and no token was taken away from a command. -/
structure Keeps (r r' : Registry) : Prop where
  commands : r'.commands = r.commands
  modifiers : r'.modifiers = r.modifiers
  aliases : ∀ token target, r.aliases.get? token = some target →
    r'.aliases.get? token = some target

theorem Keeps.refl (r : Registry) : r.Keeps r := ⟨rfl, rfl, fun _ _ => id⟩

theorem Keeps.trans {r r' r'' : Registry} (h : r.Keeps r') (h' : r'.Keeps r'') : r.Keeps r'' :=
  ⟨h'.commands.trans h.commands, h'.modifiers.trans h.modifiers,
    fun token target ht => h'.aliases token target (h.aliases token target ht)⟩

theorem addAlias?_keeps {r r' : Registry} {name command : String}
    (h : r.addAlias? name command = some r') : r.Keeps r' := by
  unfold addAlias? at h
  split at h
  · simp at h
  · next target _ =>
    dsimp only at h
    split at h
    · simp at h
    · split at h
      · next owner ho =>
        split at h
        · next he =>
          obtain rfl := Option.some.inj h
          refine ⟨rfl, rfl, fun token t ht => ?_⟩
          rw [Table.get?_put]
          split
          · next hk => rw [hk, ho] at ht; rw [← he, ht]
          · exact ht
        · simp at h
      · next hn =>
        obtain rfl := Option.some.inj h
        refine ⟨rfl, rfl, fun token t ht => ?_⟩
        rw [Table.get?_put, if_neg]
        · exact ht
        · rintro rfl
          simp [hn] at ht

theorem withAliases_keeps (r : Registry) (aliases : List (String × String)) :
    r.Keeps (r.withAliases aliases) := by
  unfold withAliases
  induction aliases generalizing r with
  | nil => exact .refl r
  | cons a aliases ih =>
    have ha : r.Keeps ((r.addAlias? a.1 a.2).getD r) := by
      cases hr : r.addAlias? a.1 a.2 with
      | none => exact .refl r
      | some r' => exact addAlias?_keeps hr
    exact ha.trans (ih _)

/-- The name of a built-in command leads to it, and has no blanks. -/
theorem builtinCommands_named : ∀ spec ∈ builtinCommands,
    builtin.aliases.get? (Text.lower spec.name) = some spec.name ∧
      ∀ c ∈ spec.name.toList, Text.isBlank c = false := by
  have h : builtinCommands.all fun spec =>
      decide (builtin.aliases.get? (Text.lower spec.name) = some spec.name) &&
        spec.name.toList.all fun c => !Text.isBlank c := by
    decide +kernel
  intro spec hs
  have hspec := List.all_eq_true.1 h spec hs
  simp only [Bool.and_eq_true, decide_eq_true_eq, List.all_eq_true, Bool.not_eq_true'] at hspec
  exact hspec

variable {aliases : List (String × String)}

theorem builtin_commands {name : String} {spec : CommandSpec}
    (h : builtin.commands.get? name = some spec) : spec ∈ builtinCommands ∧ spec.name = name := by
  obtain ⟨c, hc, he⟩ := List.mem_map.1 (Table.mem_of_get? h)
  obtain ⟨hn, rfl⟩ := Prod.mk.inj he
  exact ⟨hc, hn⟩

theorem resolve_builtin {token : String} {spec : CommandSpec}
    (h : (builtin.withAliases aliases).resolve token = some spec) :
    ∃ name, builtin.commands.get? name = some spec := by
  unfold resolve at h
  split at h
  · rw [(withAliases_keeps builtin aliases).commands] at h
    exact ⟨_, h⟩
  · contradiction

theorem mem_builtinCommands {token : String} {spec : CommandSpec}
    (h : (builtin.withAliases aliases).resolve token = some spec) : spec ∈ builtinCommands := by
  obtain ⟨name, hn⟩ := resolve_builtin h
  exact (builtin_commands hn).1

theorem resolve_own (aliases : List (String × String)) {spec : CommandSpec}
    (h : builtin.commands.get? spec.name = some spec) :
    (builtin.withAliases aliases).resolve spec.name = some spec := by
  obtain ⟨halias, -⟩ := builtinCommands_named spec (builtin_commands h).1
  have hkeep := withAliases_keeps builtin aliases
  rw [resolve, hkeep.aliases _ _ halias, hkeep.commands]
  exact h

/-- However a command was named, its own name leads to it as well. -/
theorem resolve_name {token : String} {spec : CommandSpec}
    (h : (builtin.withAliases aliases).resolve token = some spec) :
    (builtin.withAliases aliases).resolve spec.name = some spec := by
  obtain ⟨name, hn⟩ := resolve_builtin h
  exact resolve_own _ ((builtin_commands hn).2 ▸ hn)

theorem modifier?_builtin (name : String) :
    (builtin.withAliases aliases).modifier? name = builtin.modifier? name := by
  rw [modifier?, (withAliases_keeps builtin aliases).modifiers, modifier?]

theorem mem_builtinModifiers {name : String} {spec : ModifierSpec}
    (h : builtin.modifier? name = some spec) : spec ∈ builtinModifiers := by
  obtain ⟨m, hm, he⟩ := List.mem_map.1 (Table.mem_of_get? h)
  obtain ⟨-, rfl⟩ := Prod.mk.inj he
  exact hm

/-- A built-in tag is found under its own name. -/
theorem modifier?_name {name : String} {spec : ModifierSpec}
    (h : builtin.modifier? name = some spec) : builtin.modifier? spec.name = some spec := by
  have hkey := builtin_waitsBuiltin.keyed _ _ h
  rw [modifier?, ← hkey]
  exact h

theorem modifier?_found {name : String} {spec : ModifierSpec}
    (h : builtin.modifier? name = some spec) :
    (builtin.withAliases aliases).modifier? spec.name = some spec := by
  rw [modifier?_builtin]
  exact modifier?_name h

theorem renderModifier_found {name : String} {spec : ModifierSpec}
    (h : builtin.modifier? name = some spec) {v : Value} {text : String}
    (hv : spec.grammar.render v = .ok text) :
    (builtin.withAliases aliases).renderModifier spec.name v = .ok text := by
  rw [renderModifier, modifier?_found h]
  simp only [hv]
  rfl

end Registry

namespace Line

variable {aliases : List (String × String)}

/-- Every modifier but the two for times is written as a tag that is read as the modifier. -/
theorem stands_of_gathered {m : Table Value} (h : Gathered (Registry.builtin.withAliases aliases) m)
    (hwait : m.has "wait" = false) (hmax : m.has "maxwait" = false) :
    ∀ e ∈ m, ∃ b, Stands (Registry.builtin.withAliases aliases) e b := by
  intro e he
  obtain ⟨a, spec, ha, hs, hn, hv⟩ := h.read e he
  rw [Registry.modifier?_builtin] at hs
  obtain ⟨b, hb⟩ := ModifierGrammar.builtin_stands (Registry.mem_builtinModifiers hs)
    (hn ▸ Table.ne_of_has hwait he) (hn ▸ Table.ne_of_has hmax he) ha hv
  exact ⟨b, ⟨hb.valid, spec, by rw [hb.named, Registry.modifier?_found hs], hn, hb.read⟩,
    hn ▸ Registry.renderModifier_found hs hb.written⟩

/-- The command word, the argument if there is one, and the tags. -/
def parts (i : Instruction) (tags : List Tag) : List (List Char) :=
  ('/' :: i.command.toList) ::
    ((if i.rawArgs.isEmpty then [] else [i.rawArgs.toList]) ++ tags.map (·.whole.toList))

theorem toList_assemble (i : Instruction) (tags : List Tag) :
    (i.assemble (tags.map Tag.whole)).toList = [' '].intercalate (parts i tags) := by
  rw [Instruction.assemble, String.toList_intercalate, parts]
  split <;> simp [Function.comp_def]

theorem intercalate_parts (i : Instruction) (tags : List Tag) : [' '].intercalate (parts i tags) =
    '/' :: i.command.toList ++ (lead i.rawArgs.toList ++ Tag.behind tags) := by
  have hempty : i.rawArgs.toList.isEmpty = i.rawArgs.isEmpty := by
    rw [Bool.eq_iff_iff, List.isEmpty_iff, String.isEmpty_iff, String.toList_eq_nil_iff]
  rw [parts, Text.intercalate_eq_flatMap, List.flatMap_append, List.flatMap_map, lead, hempty,
    Tag.behind]
  split <;> simp

theorem trimmed_whole (b : Tag) : Text.Trimmed b.whole.toList ∧ b.whole.toList ≠ [] := by
  have hlast : b.whole.toList.getLast? = some '>' := by
    rw [Tag.toList_whole, ← List.cons_append, List.getLast?_append]
    cases b.value <;> simp [Tag.closing, List.getLast?_cons]
  refine ⟨⟨?_, ?_⟩, by simp⟩
  · rw [Tag.toList_whole]
    simp only [List.head?_cons, Option.mem_def, Option.some.injEq, forall_eq']
    decide
  · rw [hlast]
    simp only [Option.mem_def, Option.some.injEq, forall_eq']
    decide

theorem trimmed_parts {i : Instruction} (hc : ∀ c ∈ i.command.toList, Text.isBlank c = false)
    (hr : Text.Trimmed i.rawArgs.toList) (tags : List Tag) :
    Text.Trimmed ([' '].intercalate (parts i tags)) := by
  have hword : Text.Word ('/' :: i.command.toList) :=
    ⟨List.cons_ne_nil _ _, List.forall_mem_cons.2 ⟨by decide, hc⟩⟩
  refine (Text.trimmed_intercalate ?_).1
  refine List.forall_mem_cons.2 ⟨⟨hword.trimmed, hword.1⟩, fun w hw => ?_⟩
  rcases List.mem_append.1 hw with hw | hw
  · split at hw
    · simp at hw
    · next he =>
      obtain rfl := List.mem_singleton.1 hw
      exact ⟨hr, by simpa using he⟩
  · obtain ⟨b, -, rfl⟩ := List.mem_map.1 hw
    exact trimmed_whole b

/-- What a line is read as when its command is known and its tags have been taken. -/
def finish (spec : CommandSpec) (head l : String) (line : Int) :
    Except ParseError (Table Value × String) → Except ParseError (Option Instruction)
  | .error e => .error e
  | .ok (m, raw) =>
    match spec.grammar.read raw with
    | .error e => .error ⟨.malformedArguments, head ++ ": " ++ e.message, line⟩
    | .ok args => .ok (some ⟨spec.name, raw, args, m, Text.trim l, line⟩)

/-- A line that begins with a command word is read as the word and what follows it say. -/
theorem read_word {l : String} {token rest : List Char} {spec : CommandSpec}
    (hl : Text.trimChars l.toList = '/' :: token ++ rest)
    (htoken : ∀ c ∈ token, Text.isBlank c = false) (hrest : ∀ c ∈ rest.head?, Text.isBlank c)
    (hspec : r.resolve (String.ofList token) = some spec) :
    read r l line = finish spec (String.ofList ('/' :: token)) l line
      (takeModifiers r line (Text.trimStartChars rest)) := by
  have hblank : isBlankOrComment l = false := by
    rw [isBlankOrComment, hl]
    simp
  have hnext : Text.nextWord ('/' :: token ++ rest) = ('/' :: token, Text.trimStartChars rest) :=
    Text.nextWord_append (List.forall_mem_cons.2 ⟨by decide, htoken⟩) hrest
  rw [read, if_neg (by simp [hblank]), hl]
  cases hm : takeModifiers r line (Text.trimStartChars rest) with
  | error e => simp only [hnext, readHead, hspec, hm, finish]
  | ok p =>
    obtain ⟨m, raw⟩ := p
    cases hargs : spec.grammar.read raw <;>
      simp only [hnext, readHead, hspec, hm, finish, hargs, Text.trim, hl]

theorem blank_after_command (s : List Char) (tags : List Tag) :
    ∀ c ∈ (lead s ++ Tag.behind tags).head?, Text.isBlank c := by
  have hblank : Text.isBlank ' ' = true := by decide
  intro c hc
  cases s with
  | cons d s =>
    have : c = ' ' := by simpa [lead] using hc.symm
    rw [this, hblank]
  | nil =>
    cases tags with
    | nil => simp [lead, Tag.behind] at hc
    | cons b tags =>
      have : c = ' ' := by simpa [lead, Tag.behind] using hc.symm
      rw [this, hblank]

/-- A line that is put together from a command, an argument and tags is read as the command and what
stands behind it say. -/
theorem read_assembled {i : Instruction} {spec : CommandSpec} {token : String}
    (hres : (Registry.builtin.withAliases aliases).resolve token = some spec)
    (hcommand : i.command = spec.name) (htrim : Text.Trimmed i.rawArgs.toList) (tags : List Tag)
    (num : Int) :
    read (Registry.builtin.withAliases aliases) (i.assemble (tags.map Tag.whole)) num =
      finish spec ("/" ++ i.command) (i.assemble (tags.map Tag.whole)) num
        (takeModifiers (Registry.builtin.withAliases aliases) num
          (Text.trimStartChars (lead i.rawArgs.toList ++ Tag.behind tags))) := by
  have hword : ∀ c ∈ i.command.toList, Text.isBlank c = false := by
    rw [hcommand]
    exact (Registry.builtinCommands_named spec (Registry.mem_builtinCommands hres)).2
  have hresolve : (Registry.builtin.withAliases aliases).resolve
      (String.ofList i.command.toList) = some spec := by
    rw [String.ofList_toList, hcommand]
    exact Registry.resolve_name hres
  have hline : Text.Trimmed (i.assemble (tags.map Tag.whole)).toList := by
    rw [toList_assemble]
    exact trimmed_parts hword htrim tags
  have hl : Text.trimChars (i.assemble (tags.map Tag.whole)).toList =
      '/' :: i.command.toList ++ (lead i.rawArgs.toList ++ Tag.behind tags) := by
    rw [Text.trimChars, Text.trimStartChars_eq _ hline.first, Text.trimEndChars_eq _ hline.last,
      toList_assemble, intercalate_parts]
  have hhead : String.ofList ('/' :: i.command.toList) = "/" ++ i.command := by
    rw [← String.toList_inj]
    simp
  rw [read_word hl hword (blank_after_command _ _) hresolve, hhead]

/-- If the argument has no known tags, and the tags are for different modifiers, then the line is read as what
it was put together from. -/
theorem read_assemble {i : Instruction} {spec : CommandSpec} {token : String}
    (hres : (Registry.builtin.withAliases aliases).resolve token = some spec)
    (hcommand : i.command = spec.name) (hargs : spec.grammar.read i.rawArgs = .ok i.args) {s : List Char}
    (hs : i.rawArgs = " ".intercalate ((Text.wordsChars s).map String.ofList))
    (hraw : ∀ a ∈ Tag.findAll i.rawArgs,
      (Registry.builtin.withAliases aliases).modifier? a.name = none)
    (htags : List.Forall₂ (Means (Registry.builtin.withAliases aliases)) es tags)
    (honce : (Table.keys es).Nodup) (num : Int) :
    read (Registry.builtin.withAliases aliases) (i.assemble (tags.map Tag.whole)) num =
      .ok (some ⟨i.command, i.rawArgs, i.args, es, Text.trim (i.assemble (tags.map Tag.whole)), num⟩) := by
  have hchars : i.rawArgs.toList = Text.spaced s := by rw [hs, Text.toList_spaced]
  have htrim : Text.Trimmed i.rawArgs.toList := hchars ▸ Text.trimmed_spaced s
  have hm : takeModifiers (Registry.builtin.withAliases aliases) num
      (Text.trimStartChars (lead i.rawArgs.toList ++ Tag.behind tags)) = .ok (es, i.rawArgs) := by
    rw [takeModifiers_written htags honce htrim fun a ha => hraw a (Tag.mem_findAll.2 ha), hchars,
      Text.wordsChars_spaced, ← hs]
  rw [read_assembled hres hcommand htrim, hm]
  simp only [finish, hargs, hcommand]

/-- An instruction whose argument has no known tags left, and which has no modifier for times, can be
written, and the line it is written as is read as the same command, argument and modifiers. -/
theorem write_read {l : String} {num : Int} {i : Instruction}
    (h : read (Registry.builtin.withAliases aliases) l num = .ok (some i))
    (hraw : ∀ a ∈ Tag.findAll i.rawArgs,
      (Registry.builtin.withAliases aliases).modifier? a.name = none)
    (hwait : i.has "wait" = false) (hmax : i.has "maxwait" = false) :
    ∃ text, i.write (Registry.builtin.withAliases aliases) = .ok text ∧
      ∀ num', ∃ j, read (Registry.builtin.withAliases aliases) text num' = .ok (some j) ∧
        j.command = i.command ∧ j.rawArgs = i.rawArgs ∧ j.args = i.args ∧
        j.modifiers.Perm i.modifiers ∧ ∀ name, j.modifier? name = i.modifier? name := by
  obtain ⟨spec, hp⟩ := read_parsed h
  obtain ⟨token, hres⟩ := hp.resolved
  obtain ⟨s, hs⟩ := hp.spaced
  have hperm := sortedModifiers_perm i
  have hstands := stands_of_gathered hp.gathered hwait hmax
  obtain ⟨tags, htags⟩ := exists_tags fun e (he : e ∈ i.sortedModifiers) => hstands e (hperm.mem_iff.1 he)
  have honce : (Table.keys i.sortedModifiers).Nodup :=
    (hperm.map Prod.fst).nodup_iff.2 hp.gathered.once
  refine ⟨i.assemble (tags.map Tag.whole), ?_, fun num' => ?_⟩
  · rw [Instruction.write, renderModifiers_ok (htags.imp fun _ _ => Stands.written)]
    rfl
  · have hread := read_assemble hres hp.command hp.args hs hraw (htags.imp fun _ _ => Stands.toMeans)
      honce num'
    exact ⟨_, hread, rfl, rfl, rfl, hperm, Table.get?_perm hp.gathered.once hperm⟩

/-- An alias in capitals, a quoted name, a tag that is unknown, and three that are not. -/
def strides : String := "/ZAUBER  \"Great  Strides\" <x.y><Condition.!Poor , Good> <index.02>  <echo>"

theorem write_read_strides : ∃ i,
    read (Registry.builtin.withAliases [("zauber", "ac")]) strides 0 = .ok (some i) ∧
      i.rawArgs = "\"Great Strides\" <x.y>" ∧ i.modifiers.length = 3 ∧
      ∃ text, i.write (Registry.builtin.withAliases [("zauber", "ac")]) = .ok text ∧
        ∃ j, read (Registry.builtin.withAliases [("zauber", "ac")]) text 0 = .ok (some j) ∧
          j.command = i.command ∧ j.rawArgs = i.rawArgs ∧ j.modifiers.Perm i.modifiers := by
  have hread : (read (Registry.builtin.withAliases [("zauber", "ac")]) strides 0).toOption.join.any
      fun i => i.rawArgs == "\"Great Strides\" <x.y>" && i.modifiers.length == 3 &&
        !i.has "wait" && !i.has "maxwait" && (Tag.findAll i.rawArgs).all fun a =>
          ((Registry.builtin.withAliases [("zauber", "ac")]).modifier? a.name).isNone := by
    decide +kernel
  obtain ⟨i, hi, hp⟩ := (Option.any_eq_true _ _).1 hread
  simp only [Bool.and_eq_true, beq_iff_eq, Bool.not_eq_true', List.all_eq_true,
    Option.isNone_iff_eq_none] at hp
  obtain ⟨⟨⟨⟨hraw, hlength⟩, hwait⟩, hmax⟩, htags⟩ := hp
  have hok : read (Registry.builtin.withAliases [("zauber", "ac")]) strides 0 = .ok (some i) := by
    cases hr : read (Registry.builtin.withAliases [("zauber", "ac")]) strides 0 with
    | error e => simp [hr, Except.toOption] at hi
    | ok o => simpa [hr, Except.toOption] using hi
  obtain ⟨text, hw, hj⟩ := write_read hok htags hwait hmax
  obtain ⟨j, hj, hcommand, hargs, -, hperm, -⟩ := hj 0
  exact ⟨i, hok, hraw, hlength, text, hw, j, hj, hcommand, hargs, hperm⟩

end Line

end Macros
