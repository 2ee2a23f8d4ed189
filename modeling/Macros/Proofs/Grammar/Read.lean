import Macros.Grammar.Builtin
import Macros.Line
import Macros.Proofs.Grammar.Tags
import Macros.Proofs.Table

/-!
What reading a macro guarantees of its instructions. A modifier has been read by the grammar of the
tag that it comes from.
-/

namespace Macros

namespace Line

/-- Every modifier is a value that the grammar of its tag reads. -/
def Typed (r : Registry) (t : Table Value) : Prop :=
  ∀ name v, t.get? name = some v → ∃ key spec raw, r.modifiers.get? key = some spec ∧
    spec.name = name ∧ spec.grammar.read raw = .ok v

variable {r : Registry}

/-- A piece stays where it is, unless it is a tag that the registry knows; its value is read then, for a
modifier that was not given before. -/
theorem takePiece_cases {line : Int} {t u : Taken} {p : Tag.Piece} (h : takePiece r line t p = .ok u) :
    (u = { t with rest := p.chars.reverse ++ t.rest } ∧ ∀ a, p = .tag a → r.modifier? a.name = none) ∨
      ∃ a spec v, p = .tag a ∧ r.modifier? a.name = some spec ∧ spec.name ∉ t.modifiers.keys ∧
        spec.grammar.read a.value = .ok v ∧ u = ⟨t.modifiers.put spec.name v, ' ' :: t.rest⟩ := by
  cases p with
  | plain c =>
    obtain rfl := Except.ok.inj h
    exact .inl ⟨rfl, fun a ha => nomatch ha⟩
  | tag a =>
    unfold takePiece at h
    dsimp only at h
    split at h
    · next hn =>
      obtain rfl := Except.ok.inj h
      exact .inl ⟨rfl, fun b hb => Tag.Piece.tag.inj hb ▸ hn⟩
    · next spec hs =>
      split at h
      · contradiction
      · next hnew =>
        split at h
        · contradiction
        · next v hv =>
          obtain rfl := Except.ok.inj h
          rw [Table.has_iff] at hnew
          exact .inr ⟨a, spec, v, rfl, hs, hnew, hv, rfl⟩

/-- What taking each piece keeps, taking all of them keeps. -/
theorem takePieces_keeps {line : Int} {P : Taken → Prop} {ps : List Tag.Piece}
    (hstep : ∀ p ∈ ps, ∀ t u, takePiece r line t p = .ok u → P t → P u) {t u : Taken}
    (h : ps.foldlM (takePiece r line) t = .ok u) (ht : P t) : P u := by
  induction ps generalizing t with
  | nil =>
    obtain rfl := Except.ok.inj h
    exact ht
  | cons p ps ih =>
    obtain ⟨hp, hps⟩ := List.forall_mem_cons.1 hstep
    rw [List.foldlM_cons] at h
    cases hq : takePiece r line t p with
    | error e =>
      rw [hq] at h
      contradiction
    | ok t' =>
      rw [hq] at h
      exact ih hps h (hp t t' hq ht)

/-- Every modifier is the value of a tag among the pieces. -/
theorem takePieces_given {line : Int} {ps : List Tag.Piece} {u : Taken}
    (h : ps.foldlM (takePiece r line) ⟨[], []⟩ = .ok u) : ∀ e ∈ u.modifiers, ∃ a spec,
      .tag a ∈ ps ∧ r.modifier? a.name = some spec ∧ spec.name = e.1 ∧
        spec.grammar.read a.value = .ok e.2 := by
  refine takePieces_keeps (P := fun u => ∀ e ∈ u.modifiers, ∃ a spec,
    .tag a ∈ ps ∧ r.modifier? a.name = some spec ∧ spec.name = e.1 ∧
      spec.grammar.read a.value = .ok e.2) (fun p hp t u hu ht e he => ?_) h (by simp)
  obtain ⟨rfl, -⟩ | ⟨a, spec, v, rfl, hs, -, hv, rfl⟩ := takePiece_cases hu
  · exact ht e he
  · rcases Table.mem_put he with rfl | he
    · exact ⟨a, spec, hp, hs, rfl, hv⟩
    · exact ht e he

/-- The modifiers and the argument are what taking the pieces in turn ends with. -/
theorem takeModifiers_fold {line : Int} {s : List Char} {m : Table Value} {raw : String}
    (h : takeModifiers r line s = .ok (m, raw)) :
    ∃ t, (Tag.pieces s).foldlM (takePiece r line) ⟨[], []⟩ = .ok t ∧ m = t.modifiers ∧
      raw = " ".intercalate ((Text.wordsChars t.rest.reverse).map String.ofList) := by
  unfold takeModifiers at h
  split at h
  · contradiction
  · next t ht =>
    obtain ⟨rfl, rfl⟩ := Prod.mk.inj (Except.ok.inj h)
    exact ⟨t, ht, rfl, rfl⟩

/-- What the parts of an instruction were read from: a command word, and what follows it. -/
structure ReadAs (r : Registry) (l : String) (k : Int) (spec : CommandSpec) (i : Instruction) : Prop where
  head : readHead r k (Text.nextWord (Text.trimChars l.toList)).1 = .ok spec
  taken : takeModifiers r k (Text.nextWord (Text.trimChars l.toList)).2 = .ok (i.modifiers, i.rawArgs)
  args : spec.grammar.read i.rawArgs = .ok i.args
  command : i.command = spec.name
  line : i.line = k

theorem read_some {l : String} {k : Int} {i : Instruction} (h : read r l k = .ok (some i)) :
    ∃ spec, ReadAs r l k spec i := by
  unfold read at h
  split at h
  · exact nomatch Except.ok.inj h
  · dsimp only at h
    split at h
    · contradiction
    · next spec hspec =>
      split at h
      · contradiction
      · next hm =>
        split at h
        · contradiction
        · next hargs =>
          obtain rfl := Option.some.inj (Except.ok.inj h)
          exact ⟨spec, hspec, hm, hargs, rfl, rfl⟩

theorem read_typed {l : String} {k : Int} {i : Instruction} (h : read r l k = .ok (some i)) :
    Typed r i.modifiers := by
  obtain ⟨spec, hi⟩ := read_some h
  obtain ⟨t, ht, hm, -⟩ := takeModifiers_fold hi.taken
  rw [hm]
  intro name v hv
  obtain ⟨a, spec, -, hs⟩ := takePieces_given ht _ (Table.mem_of_get? hv)
  exact ⟨_, spec, a.value, hs⟩

theorem readFrom_typed {k : Int} {ls : List String} {is : List Instruction}
    (h : readFrom r k ls = .ok is) : ∀ i ∈ is, Typed r i.modifiers := by
  induction ls generalizing k is with
  | nil =>
    obtain rfl := Except.ok.inj h
    simp
  | cons l ls ih =>
    unfold readFrom at h
    split at h
    · simp at h
    · exact ih h
    · next i hi =>
      cases hr : readFrom r (k + 1) ls with
      | error e => rw [hr] at h; simp [Except.map] at h
      | ok js =>
        rw [hr] at h
        obtain rfl := Except.ok.inj h
        intro j hj
        rcases List.mem_cons.1 hj with rfl | hj
        · exact read_typed hi
        · exact ih hr j hj

theorem readAll_typed {text : String} {is : List Instruction} (h : readAll r text = .ok is) :
    ∀ i ∈ is, Typed r i.modifiers :=
  readFrom_typed h

end Line

/-! Registries that the built-in one has been extended to. -/

namespace Registry

/-- Commands, tags and aliases were added to the built-in registry. -/
inductive Extended : Registry → Prop
  | builtin : Extended builtin
  | command {r r' : Registry} (spec : CommandSpec) (h : Extended r)
    (hr : r.registerCommand spec = .ok r') : Extended r'
  | modifier {r r' : Registry} (spec : ModifierSpec) (h : Extended r)
    (hr : r.registerModifier spec = .ok r') : Extended r'
  | named {r r' : Registry} (name command : String) (h : Extended r)
    (hr : r.addAlias? name command = some r') : Extended r'

theorem Extended.withAliases {r : Registry} (h : r.Extended) (aliases : List (String × String)) :
    (r.withAliases aliases).Extended := by
  unfold Registry.withAliases
  induction aliases generalizing r with
  | nil => exact h
  | cons a aliases ih =>
    have ha : ((r.addAlias? a.1 a.2).getD r).Extended := by
      cases hr : r.addAlias? a.1 a.2 with
      | none => exact h
      | some r' => exact .named a.1 a.2 h hr
    exact ih ha

/-- Tags are found under their names in small letters, and the tag for waits is the built-in one. -/
structure WaitsBuiltin (r : Registry) : Prop where
  keyed : ∀ key spec, r.modifiers.get? key = some spec → key = Text.lower spec.name
  wait : ∃ spec, r.modifiers.get? "wait" = some spec ∧ spec.grammar = .wait

theorem builtin_waitsBuiltin : builtin.WaitsBuiltin where
  keyed := by
    intro key spec h
    have hm : ∀ m ∈ builtinModifiers, m.name = Text.lower m.name := by decide +kernel
    obtain ⟨m, hb, he⟩ := List.mem_map.1 (Table.mem_of_get? h)
    obtain ⟨rfl, rfl⟩ := Prod.mk.inj he
    exact hm m hb
  wait := ⟨_, rfl, rfl⟩

theorem WaitsBuiltin.of_modifiers {r r' : Registry} (h : r.WaitsBuiltin)
    (hm : r'.modifiers = r.modifiers) : r'.WaitsBuiltin :=
  ⟨by rw [hm]; exact h.keyed, by rw [hm]; exact h.wait⟩

/-- A tag cannot be registered twice, so the one for waits stays. -/
theorem WaitsBuiltin.registerModifier {r r' : Registry} {spec : ModifierSpec} (h : r.WaitsBuiltin)
    (hr : r.registerModifier spec = .ok r') : r'.WaitsBuiltin := by
  unfold Registry.registerModifier at hr
  dsimp only at hr
  split at hr
  · simp at hr
  · next hn =>
    obtain rfl := Except.ok.inj hr
    obtain ⟨m, hm, hg⟩ := h.wait
    constructor
    · intro key m' hk
      dsimp only at hk
      rw [Table.get?_put] at hk
      split at hk
      · next he => rw [he, ← Option.some.inj hk]
      · exact h.keyed key m' hk
    · refine ⟨m, ?_, hg⟩
      rw [Table.get?_put, if_neg, hm]
      intro he
      rw [← he] at hn
      simp [Table.has, hm] at hn

theorem addAlias?_modifiers {r r' : Registry} {name command : String}
    (h : r.addAlias? name command = some r') : r'.modifiers = r.modifiers := by
  unfold addAlias? at h
  split at h
  · simp at h
  · dsimp only at h
    split at h
    · simp at h
    · split at h
      · split at h
        · rw [← Option.some.inj h]
        · simp at h
      · rw [← Option.some.inj h]

theorem Extended.waitsBuiltin {r : Registry} (h : r.Extended) : r.WaitsBuiltin := by
  induction h with
  | builtin => exact builtin_waitsBuiltin
  | command spec _ hr ih =>
    refine ih.of_modifiers ?_
    unfold registerCommand at hr
    split at hr
    · simp at hr
    · rw [← Except.ok.inj hr]
  | modifier spec _ hr ih => exact ih.registerModifier hr
  | named name command _ hr ih =>
    exact ih.of_modifiers (addAlias?_modifiers hr)

theorem WaitsBuiltin.grammar {r : Registry} (h : r.WaitsBuiltin) {key : String}
    {spec : ModifierSpec} (hs : r.modifiers.get? key = some spec) (hn : spec.name = "wait") :
    spec.grammar = .wait := by
  obtain ⟨m, hm, hg⟩ := h.wait
  have hk : key = "wait" := by
    rw [h.keyed key spec hs, hn]
    decide +kernel
  rw [hk, hm] at hs
  rw [← Option.some.inj hs]
  exact hg

end Registry

/-- A wait behind a line is given as a span. -/
def Instruction.PlainWait (i : Instruction) : Prop :=
  ∀ v, i.modifier? "wait" = some v → ∃ p : Span, v = p.toValue

theorem Line.readAll_plainWait {r : Registry} (hr : r.Extended) {text : String}
    {is : List Instruction} (h : readAll r text = .ok is) : ∀ i ∈ is, i.PlainWait := by
  intro i hi v hv
  obtain ⟨key, spec, raw, hs, hn, hg⟩ := readAll_typed h i hi "wait" v hv
  rw [hr.waitsBuiltin.grammar hs hn] at hg
  cases hw : ModifierGrammar.readWait raw with
  | error e => simp [ModifierGrammar.read, hw, Except.map] at hg
  | ok p =>
    simp only [ModifierGrammar.read, hw, Except.map, Except.ok.injEq] at hg
    exact ⟨p, hg.symm⟩

end Macros
