import Macros.Proofs.Grammar.RoundTrip
import Macros.Proofs.Text.Lower
import Mathlib.Data.List.Chain
import Mathlib.Data.List.Duplicate
import Mathlib.Data.List.Induction

/-!
Tags may stand anywhere in an argument. A tag leaves a blank where it was taken from, and the words that
are left are joined by single blanks, so what a line is read as depends on its words, and on its tags
but for their order, and not on where among the words a tag stands.
-/

namespace Macros

/-- What an argument is put together from. -/
inductive Line.Part
  | blank (c : Char)
  | word (w : List Char)
  | tag (a : Tag)
deriving DecidableEq

namespace Registry

/-- The tokens that are stored are in small letters and lead to commands. -/
def Leads (r : Registry) : Prop := ∀ token target, r.aliases.get? token = some target →
  Text.lower token = token ∧ ∃ spec, r.commands.get? target = some spec ∧ spec.name = target

theorem lower_bareToken (s : String) : Text.lower (bareToken s) = bareToken s := by
  have hsmall : ∀ c ∈ (Text.lower s).toList.dropWhile (· = '/'), Text.Small c := fun c hc => by
    have hmem := (List.dropWhile_suffix _).subset hc
    rw [Text.lower, String.toList_ofList] at hmem
    exact Text.small_of_mem_lowerChars hmem
  rw [bareToken, Text.lower, String.toList_ofList, Text.lowerChars, Text.lowerAfter_small hsmall]

theorem builtin_leads : builtin.Leads := by
  have h : builtin.aliases.all fun e => decide (Text.lower e.1 = e.1) &&
      (builtin.commands.get? e.2).any fun spec => spec.name == e.2 := by
    decide +kernel
  intro token target ht
  have he := List.all_eq_true.1 h _ (Table.mem_of_get? ht)
  simp only [Bool.and_eq_true, decide_eq_true_eq, Option.any_eq_true, beq_iff_eq] at he
  exact he

theorem Leads.addAlias? {r r' : Registry} {name command : String} (h : r.Leads)
    (hr : r.addAlias? name command = some r') : r'.Leads := by
  have hput : ∀ target, r.aliases.get? (bareToken command) = some target →
      Leads { r with aliases := r.aliases.put (bareToken name) target } := by
    intro target htarget token t ht
    dsimp only at ht ⊢
    rw [Table.get?_put] at ht
    split at ht
    · next hn =>
      obtain rfl := Option.some.inj ht
      exact ⟨hn ▸ lower_bareToken name, (h _ _ htarget).2⟩
    · exact h token t ht
  unfold Registry.addAlias? at hr
  split at hr
  · simp at hr
  · next target htarget =>
    dsimp only at hr
    split at hr
    · simp at hr
    · split at hr
      · split at hr
        · exact Option.some.inj hr ▸ hput target htarget
        · simp at hr
      · exact Option.some.inj hr ▸ hput target htarget

theorem Leads.withAliases {r : Registry} (h : r.Leads) (aliases : List (String × String)) :
    (r.withAliases aliases).Leads := by
  unfold Registry.withAliases
  induction aliases generalizing r with
  | nil => exact h
  | cons a aliases ih =>
    have ha : ((r.addAlias? a.1 a.2).getD r).Leads := by
      cases hr : r.addAlias? a.1 a.2 with
      | none => exact h
      | some r' => exact h.addAlias? hr
    exact ih ha

/-- A stored token leads to its command, in any letter case. -/
theorem Leads.resolve {r : Registry} (h : r.Leads) {stored target token : String}
    (hs : r.aliases.get? stored = some target) (ht : Text.lower token = Text.lower stored) :
    ∃ spec, r.command? target = some spec ∧ spec.name = target ∧ r.resolve token = some spec := by
  obtain ⟨hsmall, spec, hspec, hname⟩ := h stored target hs
  refine ⟨spec, hspec, hname, ?_⟩
  rw [Registry.resolve, ht, hsmall, hs]
  exact hspec

end Registry

namespace Line

variable {r : Registry} {line : Int}

/-- The modifier that a tag gives, if the registry knows the tag and its grammar reads the value. -/
def meaning? (r : Registry) (a : Tag) : Option (String × Value) :=
  match r.modifier? a.name with
  | none => none
  | some spec =>
    match spec.grammar.read a.value with
    | .error _ => none
    | .ok v => some (spec.name, v)

theorem known_of_meaning? {a : Tag} {e : String × Value} (h : meaning? r a = some e) :
    ∃ spec, r.modifier? a.name = some spec ∧ spec.name = e.1 ∧
      spec.grammar.read a.value = .ok e.2 := by
  unfold meaning? at h
  split at h
  · contradiction
  · next spec hs =>
    split at h
    · contradiction
    · next v hv =>
      obtain rfl := Option.some.inj h
      exact ⟨spec, hs, rfl, hv⟩

/-- The modifiers that tags give, in the order of the tags. -/
def meanings (r : Registry) (tags : List Tag) : Table Value := tags.filterMap (meaning? r)

namespace Part

def chars : Part → List Char
  | blank c => [c]
  | word w => w
  | tag a => a.whole.toList

def pieces : Part → List Tag.Piece
  | blank c => [.plain c]
  | word w => w.map .plain
  | tag a => [.tag a]

/-- What is left of a part when the tags have been taken. -/
def left : Part → List Char
  | blank c => [c]
  | word w => w
  | tag _ => [' ']

def word? : Part → Option (List Char)
  | word w => some w
  | _ => none

def tag? : Part → Option Tag
  | tag a => some a
  | _ => none

/-- A word has no open bracket, and a tag is one that is taken. -/
def Fits (r : Registry) : Part → Prop
  | blank c => Text.isBlank c
  | word w => Text.Word w ∧ '<' ∉ w
  | tag a => a.Valid ∧ (meaning? r a).isSome

/-- Two parts can stand side by side unless both are words. -/
def Parted (p q : Part) : Prop := p.word? = none ∨ q.word? = none

end Part

def text (ps : List Part) : List Char := ps.flatMap Part.chars

def words (ps : List Part) : List (List Char) := ps.filterMap Part.word?

def tags (ps : List Part) : List Tag := ps.filterMap Part.tag?

/-- The words of an argument with single blanks between them. -/
def joined (ps : List Part) : String := " ".intercalate ((words ps).map String.ofList)

/-- Words and tags in some arrangement: between two words there is a blank or a tag. -/
structure Arranged (r : Registry) (ps : List Part) : Prop where
  fits : ∀ p ∈ ps, p.Fits r
  parted : ps.IsChain Part.Parted

variable {ps : List Part}

/-! The pieces of an arrangement are those of its parts. -/

theorem open_of_fits {p : Part} (h : p.Fits r) : ∀ c ∈ p.left, c ≠ '<' := by
  rintro c hc rfl
  cases p with
  | blank b =>
    obtain rfl := List.mem_singleton.1 hc
    have hopen : Text.isBlank '<' = false := by decide
    exact absurd h (by simp [Part.Fits, hopen])
  | word w => exact h.2 hc
  | tag a => simp [Part.left] at hc

theorem pieces_cons {c : Char} (hc : c ≠ '<') (s : List Char) :
    Tag.pieces (c :: s) = .plain c :: Tag.pieces s :=
  Tag.pieces_plain (by simp [Tag.read?, hc])

theorem pieces_closed {w : List Char} (hw : ∀ c ∈ w, c ≠ '<') (s : List Char) :
    Tag.pieces (w ++ s) = w.map .plain ++ Tag.pieces s := by
  induction w with
  | nil => rfl
  | cons c w ih =>
    rw [List.cons_append, pieces_cons (hw c List.mem_cons_self),
      ih fun d hd => hw d (List.mem_cons_of_mem c hd)]
    rfl

theorem pieces_part {p : Part} (h : p.Fits r) (s : List Char) :
    Tag.pieces (p.chars ++ s) = p.pieces ++ Tag.pieces s := by
  cases p with
  | blank c => exact pieces_closed (open_of_fits h) s
  | word w => exact pieces_closed (open_of_fits h) s
  | tag a => exact Tag.pieces_whole h.1 s

theorem pieces_text (h : ∀ p ∈ ps, p.Fits r) : Tag.pieces (text ps) = ps.flatMap Part.pieces := by
  induction ps with
  | nil => exact Tag.pieces_nil
  | cons p ps ih =>
    rw [text, List.flatMap_cons, pieces_part (h p List.mem_cons_self), ← text,
      ih fun q hq => h q (List.mem_cons_of_mem p hq), List.flatMap_cons]

/-! Taking the tags of an arrangement. -/

/-- The refusal of a modifier that is given again. -/
def givenTwice (name : String) (line : Int) : ParseError :=
  ⟨.duplicateModifier, "<" ++ name ++ "> given more than once", line⟩

theorem takePieces_plain (w : List Char) (t : Taken) :
    (w.map Tag.Piece.plain).foldlM (takePiece r line) t = .ok ⟨t.modifiers, w.reverse ++ t.rest⟩ := by
  have h : (w.map Tag.Piece.plain).foldlM (takePiece r line) t = _ := takePieces_unknown (by simp) t
  rw [h, List.flatMap_map]
  simp [Tag.Piece.chars]

/-- A part without a tag is left, and a tag gives its modifier and leaves a blank, unless the modifier has
been given before. -/
theorem takePieces_part {p : Part} (h : p.Fits r) (t : Taken) :
    p.pieces.foldlM (takePiece r line) t =
      match p.tag?.bind (meaning? r) with
      | none => .ok ⟨t.modifiers, p.left.reverse ++ t.rest⟩
      | some e =>
        if e.1 ∈ t.modifiers.keys then .error (givenTwice e.1 line)
        else .ok ⟨t.modifiers ++ [e], p.left.reverse ++ t.rest⟩ := by
  cases p with
  | blank c => exact takePieces_plain [c] t
  | word w => exact takePieces_plain w t
  | tag a =>
    obtain ⟨e, he⟩ := Option.isSome_iff_exists.1 h.2
    have htake : takePiece r line t (.tag a) = _ := takePiece_known (known_of_meaning? he) t
    rw [Part.pieces, List.foldlM_cons, htake]
    simp only [Part.tag?, Option.bind_some, he]
    split <;> rfl

theorem meanings_tags_cons (p : Part) (ps : List Part) : meanings r (tags (p :: ps)) =
    (p.tag?.bind (meaning? r)).toList ++ meanings r (tags ps) := by
  cases p with
  | tag a => cases h : meaning? r a <;> simp [tags, meanings, Part.tag?, h]
  | _ => rfl

/-- Tags for different modifiers are all taken, wherever they stand. -/
theorem takePieces_once (line : Int) (h : ∀ p ∈ ps, p.Fits r) {t : Taken}
    (ht : (Table.keys (t.modifiers ++ meanings r (tags ps))).Nodup) :
    (ps.flatMap Part.pieces).foldlM (takePiece r line) t =
      .ok ⟨t.modifiers ++ meanings r (tags ps), (ps.flatMap Part.left).reverse ++ t.rest⟩ := by
  induction ps generalizing t with
  | nil => simp [tags, meanings, pure, Except.pure]
  | cons p ps ih =>
    have hps : ∀ q ∈ ps, q.Fits r := fun q hq => h q (List.mem_cons_of_mem p hq)
    rw [meanings_tags_cons] at ht ⊢
    rw [List.flatMap_cons, List.foldlM_append, takePieces_part (h p List.mem_cons_self)]
    cases hp : p.tag?.bind (meaning? r) with
    | none =>
      rw [hp] at ht
      exact (ih hps (t := ⟨t.modifiers, p.left.reverse ++ t.rest⟩) ht).trans (by simp)
    | some e =>
      rw [hp] at ht
      have he : e.1 ∉ t.modifiers.keys := by
        rw [Table.keys, List.map_append, List.nodup_append] at ht
        exact fun hm => ht.2.2 e.1 hm e.1 (by simp) rfl
      simp only [if_neg he]
      exact (ih hps (t := ⟨t.modifiers ++ [e], p.left.reverse ++ t.rest⟩) (by simpa using ht)).trans
        (by simp)

/-- A modifier that is given twice is refused where it is given again, however the tags are arranged. -/
theorem takePieces_twice (line : Int) (h : ∀ p ∈ ps, p.Fits r) {t : Taken} (hn : t.modifiers.keys.Nodup)
    (ht : ¬(Table.keys (t.modifiers ++ meanings r (tags ps))).Nodup) :
    ∃ name, (Table.keys (t.modifiers ++ meanings r (tags ps))).Duplicate name ∧
      (ps.flatMap Part.pieces).foldlM (takePiece r line) t = .error (givenTwice name line) := by
  induction ps generalizing t with
  | nil => exact absurd (by simpa [tags, meanings] using hn) ht
  | cons p ps ih =>
    have hps : ∀ q ∈ ps, q.Fits r := fun q hq => h q (List.mem_cons_of_mem p hq)
    rw [meanings_tags_cons] at ht ⊢
    rw [List.flatMap_cons, List.foldlM_append, takePieces_part (h p List.mem_cons_self)]
    cases hp : p.tag?.bind (meaning? r) with
    | none =>
      rw [hp] at ht
      exact ih hps (t := ⟨t.modifiers, p.left.reverse ++ t.rest⟩) hn ht
    | some e =>
      rw [hp] at ht
      by_cases he : e.1 ∈ t.modifiers.keys
      · refine ⟨e.1, ?_, by simp only [if_pos he]; rfl⟩
        rw [Table.keys, List.map_append, List.duplicate_iff_two_le_count, List.count_append]
        have hbefore := List.one_le_count_iff.2 he
        have hagain : 1 ≤ List.count e.1 (List.map (·.1) ((some e).toList ++ meanings r (tags ps))) :=
          List.one_le_count_iff.2 (by simp)
        rw [Table.keys] at hbefore
        omega
      · simp only [if_neg he]
        have hnext := ih hps (t := ⟨t.modifiers ++ [e], p.left.reverse ++ t.rest⟩)
          (by rw [← Table.put_new he]; exact Table.nodup_put hn _ _) (by simpa using ht)
        rwa [List.append_assoc] at hnext

/-! The words of an arrangement. -/

theorem wordsChars_left (h : Arranged r ps) : Text.wordsChars (ps.flatMap Part.left) = words ps := by
  obtain ⟨hfits, hparted⟩ := h
  induction ps with
  | nil => rfl
  | cons p ps ih =>
    have hps := ih (fun q hq => hfits q (List.mem_cons_of_mem p hq)) hparted.tail
    have hp := hfits p List.mem_cons_self
    rw [List.flatMap_cons]
    cases p with
    | blank c => exact (Text.wordsChars_cons_blank hp _).trans hps
    | tag a => exact (Text.wordsChars_cons_blank (by decide) _).trans hps
    | word w =>
      have hword := Text.wordsChars_word hp.1
      have hcons : words (.word w :: ps) = w :: words ps := rfl
      rw [hcons, ← hps, Part.left]
      -- What follows the word is nothing, or begins with a blank.
      cases ps with
      | nil => rw [List.flatMap_nil, List.append_nil, hword]; rfl
      | cons q ps =>
        have hq := hfits q (by simp)
        have hlead : ∃ b s, Text.isBlank b ∧ (q :: ps).flatMap Part.left = b :: s := by
          cases q with
          | blank b => exact ⟨b, _, hq, rfl⟩
          | tag a => exact ⟨' ', _, by decide, rfl⟩
          | word v => exact absurd (List.isChain_cons_cons.1 hparted).1 (by simp [Part.Parted, Part.word?])
        obtain ⟨b, s, hb, hs⟩ := hlead
        rw [hs, Text.wordsChars_append_blank _ hb, Text.wordsChars_cons_blank hb, hword]
        rfl

theorem takeModifiers_once (h : Arranged r ps) (honce : (meanings r (tags ps)).keys.Nodup) :
    takeModifiers r line (text ps) = .ok (meanings r (tags ps), joined ps) := by
  have hfold := takePieces_once line h.fits (t := ⟨[], []⟩) honce
  rw [← pieces_text h.fits] at hfold
  simp only [takeModifiers, hfold, List.append_nil, List.reverse_reverse, List.nil_append,
    wordsChars_left h, joined]

theorem takeModifiers_twice (line : Int) (h : Arranged r ps) (htwice : ¬(meanings r (tags ps)).keys.Nodup) :
    ∃ name, (meanings r (tags ps)).keys.Duplicate name ∧
      takeModifiers r line (text ps) = .error (givenTwice name line) := by
  obtain ⟨name, hname, hfold⟩ :=
    takePieces_twice line h.fits (t := ⟨[], []⟩) List.nodup_nil htwice
  rw [← pieces_text h.fits] at hfold
  exact ⟨name, hname, by simp only [takeModifiers, hfold]⟩

/-! The blanks at the ends of an arrangement. -/

theorem trimmed_part {p : Part} (h : p.Fits r) :
    (∃ c, p = .blank c ∧ Text.isBlank c) ∨ Text.Trimmed p.chars ∧ p.chars ≠ [] := by
  cases p with
  | blank c => exact .inl ⟨c, rfl, h⟩
  | word w => exact .inr ⟨h.1.trimmed, h.1.1⟩
  | tag a => exact .inr (trimmed_whole a)

theorem exists_trimStart (h : Arranged r ps) : ∃ qs, Arranged r qs ∧
    text qs = Text.trimStartChars (text ps) ∧ words qs = words ps ∧ tags qs = tags ps := by
  induction ps with
  | nil => exact ⟨[], h, rfl, rfl, rfl⟩
  | cons p ps ih =>
    obtain ⟨c, rfl, hc⟩ | ⟨ht, hn⟩ := trimmed_part (h.fits p List.mem_cons_self)
    · obtain ⟨qs, hqs, htext, hwords, htags⟩ :=
        ih ⟨fun q hq => h.fits q (List.mem_cons_of_mem _ hq), h.parted.tail⟩
      refine ⟨qs, hqs, ?_, hwords, htags⟩
      rw [htext, text, text, List.flatMap_cons, Part.chars, List.singleton_append,
        Text.trimStartChars, Text.trimStartChars, List.dropWhile_cons_of_pos hc]
    · refine ⟨p :: ps, h, (Text.trimStartChars_eq _ ?_).symm, rfl, rfl⟩
      rw [text, List.flatMap_cons, List.head?_append, Option.or_of_isSome (List.isSome_head?.2 hn)]
      exact ht.first

theorem exists_trimEnd (h : Arranged r ps) : ∃ qs, Arranged r qs ∧
    text qs = Text.trimEndChars (text ps) ∧ words qs = words ps ∧ tags qs = tags ps := by
  induction ps using List.reverseRecOn with
  | nil => exact ⟨[], h, rfl, rfl, rfl⟩
  | append_singleton ps p ih =>
    have htext : text (ps ++ [p]) = text ps ++ p.chars := by simp [text]
    obtain ⟨c, rfl, hc⟩ | ⟨ht, hn⟩ := trimmed_part (h.fits p (by simp))
    · obtain ⟨qs, hqs, hq, hwords, htags⟩ :=
        ih ⟨fun q hq => h.fits q (List.mem_append_left _ hq), h.parted.left_of_append⟩
      refine ⟨qs, hqs, ?_, by rw [hwords]; simp [words, Part.word?], by rw [htags]; simp [tags, Part.tag?]⟩
      rw [hq, htext, Part.chars, Text.trimEndChars, Text.trimEndChars, List.reverse_append,
        List.reverse_singleton, List.singleton_append, List.dropWhile_cons_of_pos hc]
    · refine ⟨ps ++ [p], h, (Text.trimEndChars_eq _ ?_).symm, rfl, rfl⟩
      rw [htext, List.getLast?_append, Option.or_of_isSome (List.getLast?_isSome.2 hn)]
      exact ht.last

/-- Blanks are dropped behind a word without touching the word. -/
theorem trimEndChars_append {w : List Char} (hw : Text.Word w) (s : List Char) :
    Text.trimEndChars (w ++ s) = w ++ Text.trimEndChars s := by
  have hlast : w.reverse.dropWhile Text.isBlank = w.reverse := by
    simpa [Text.trimEndChars] using congrArg List.reverse (Text.trimEndChars_eq w hw.last)
  rw [Text.trimEndChars, List.reverse_append, List.dropWhile_append, Text.trimEndChars]
  split
  · next he => rw [hlast, List.isEmpty_iff.1 he]; simp
  · simp

/-! Lines. -/

/-- A line with a command word, and behind it, if anything, a blank and then words and tags in some
arrangement. -/
structure ArrangedLine (r : Registry) (token : String) (ps : List Part) (l : String) : Prop
    extends Arranged r ps where
  apart : ∀ c ∈ (text ps).head?, Text.isBlank c
  line : l.toList = '/' :: token.toList ++ text ps

variable {token l : String} {spec : CommandSpec}

/-- The line is read as its trimmed arrangement, which has the same words and tags. -/
theorem read_arrangedLine (h : ArrangedLine r token ps l)
    (htoken : ∀ c ∈ token.toList, Text.isBlank c = false) (hspec : r.resolve token = some spec) :
    ∃ qs, Arranged r qs ∧ words qs = words ps ∧ tags qs = tags ps ∧
      ∀ num, read r l num = finish spec ("/" ++ token) l num (takeModifiers r num (text qs)) := by
  obtain ⟨es, hes, he, hewords, hetags⟩ := exists_trimEnd h.toArranged
  obtain ⟨qs, hqs, hq, hwords, htags⟩ := exists_trimStart hes
  have hword : Text.Word ('/' :: token.toList) :=
    ⟨List.cons_ne_nil _ _, List.forall_mem_cons.2 ⟨by decide, htoken⟩⟩
  have hl : Text.trimChars l.toList = '/' :: token.toList ++ Text.trimEndChars (text ps) := by
    rw [h.line, Text.trimChars, Text.trimStartChars_eq _ (by simpa using hword.first),
      trimEndChars_append hword]
  have hrest : ∀ c ∈ (Text.trimEndChars (text ps)).head?, Text.isBlank c := fun c hc => by
    obtain ⟨t, ht⟩ := Text.trimEndChars_prefix (text ps)
    refine h.apart c ?_
    rw [← ht, List.head?_append, Option.mem_def.1 hc]
    rfl
  have hhead : String.ofList ('/' :: token.toList) = "/" ++ token := by
    rw [← String.toList_inj]
    simp
  refine ⟨qs, hqs, hwords.trans hewords, htags.trans hetags, fun num => ?_⟩
  rw [read_word hl htoken hrest (by rwa [String.ofList_toList]), hq, he, hhead]

theorem joined_eq {qs : List Part} (h : words qs = words ps) : joined qs = joined ps := by
  rw [joined, joined, h]

/-- Where no modifier is given twice, all are read, and the argument is the words; the line is refused
only if the grammar of the command refuses the words. -/
theorem read_once (h : ArrangedLine r token ps l)
    (htoken : ∀ c ∈ token.toList, Text.isBlank c = false) (hspec : r.resolve token = some spec)
    (honce : (meanings r (tags ps)).keys.Nodup) (num : Int) :
    read r l num = finish spec ("/" ++ token) l num (.ok (meanings r (tags ps), joined ps)) := by
  obtain ⟨qs, hqs, hwords, htags, hread⟩ := read_arrangedLine h htoken hspec
  rw [hread, takeModifiers_once hqs (by rwa [htags]), htags, joined_eq hwords]

theorem read_twice (h : ArrangedLine r token ps l)
    (htoken : ∀ c ∈ token.toList, Text.isBlank c = false) (hspec : r.resolve token = some spec)
    (htwice : ¬(meanings r (tags ps)).keys.Nodup) (num : Int) :
    ∃ name, (meanings r (tags ps)).keys.Duplicate name ∧
      read r l num = .error (givenTwice name num) := by
  obtain ⟨qs, hqs, -, htags, hread⟩ := read_arrangedLine h htoken hspec
  obtain ⟨name, hname, htake⟩ := takeModifiers_twice num hqs (by rwa [htags])
  exact ⟨name, htags ▸ hname, by rw [hread, htake]; rfl⟩

/-- Two readings alike: instructions with the same command, argument and modifiers, or refusals of the
same kind. -/
inductive Alike : Except ParseError (Option Instruction) → Except ParseError (Option Instruction) → Prop
  | instruction {i j : Instruction} (command : i.command = j.command) (rawArgs : i.rawArgs = j.rawArgs)
    (args : i.args = j.args) (modifiers : i.modifiers.Perm j.modifiers) :
    Alike (.ok (some i)) (.ok (some j))
  | refusal {e f : ParseError} (kind : e.kind = f.kind) : Alike (.error e) (.error f)

/-- The order of the tags, and where they stand among the words, makes no difference. -/
theorem read_alike {qs : List Part} {m : String} (hp : ArrangedLine r token ps l)
    (hq : ArrangedLine r token qs m) (htoken : ∀ c ∈ token.toList, Text.isBlank c = false)
    (hspec : r.resolve token = some spec) (hwords : words ps = words qs)
    (htags : (tags ps).Perm (tags qs)) (num : Int) : Alike (read r l num) (read r m num) := by
  have hperm : (meanings r (tags ps)).Perm (meanings r (tags qs)) := htags.filterMap _
  have hnodup := (hperm.map Prod.fst).nodup_iff
  by_cases honce : (meanings r (tags ps)).keys.Nodup
  · rw [read_once hp htoken hspec honce, read_once hq htoken hspec (hnodup.1 honce), joined_eq hwords]
    cases hargs : spec.grammar.read (joined qs) with
    | error e =>
      simp only [finish, hargs]
      exact .refusal rfl
    | ok args =>
      simp only [finish, hargs]
      exact .instruction rfl rfl rfl hperm
  · obtain ⟨x, -, hx⟩ := read_twice hp htoken hspec honce num
    obtain ⟨y, -, hy⟩ := read_twice hq htoken hspec (fun h => honce (hnodup.2 h)) num
    rw [hx, hy]
    exact .refusal rfl

variable {aliases : List (String × String)}

/-- With any aliases on top of the built-in commands, an alias without blanks in it, in any letter case,
and behind it words and known tags in any arrangement, are read as the command of the alias with the words
as its argument and the tags as its modifiers. The line is refused just if the grammar of the command
refuses the words, or a modifier is given twice; and another arrangement is read alike. -/
theorem read_arrangements {stored name token : String}
    (hstored : (Registry.builtin.withAliases aliases).aliases.get? stored = some name)
    (hcase : Text.lower token = Text.lower stored)
    (htoken : ∀ c ∈ token.toList, Text.isBlank c = false) :
    ∃ spec, (Registry.builtin.withAliases aliases).command? name = some spec ∧
      (∀ ps l num, ArrangedLine (Registry.builtin.withAliases aliases) token ps l →
        (meanings (Registry.builtin.withAliases aliases) (tags ps)).keys.Nodup →
          (∀ args, spec.grammar.read (joined ps) = .ok args →
            read (Registry.builtin.withAliases aliases) l num = .ok (some ⟨name, joined ps, args,
              meanings (Registry.builtin.withAliases aliases) (tags ps), Text.trim l, num⟩)) ∧
          ∀ e, spec.grammar.read (joined ps) = .error e →
            read (Registry.builtin.withAliases aliases) l num =
              .error ⟨.malformedArguments, "/" ++ token ++ ": " ++ e.message, num⟩) ∧
      (∀ ps l num, ArrangedLine (Registry.builtin.withAliases aliases) token ps l →
        ¬(meanings (Registry.builtin.withAliases aliases) (tags ps)).keys.Nodup →
          ∃ key, (meanings (Registry.builtin.withAliases aliases) (tags ps)).keys.Duplicate key ∧
            read (Registry.builtin.withAliases aliases) l num = .error (givenTwice key num)) ∧
      ∀ ps qs l m num, ArrangedLine (Registry.builtin.withAliases aliases) token ps l →
        ArrangedLine (Registry.builtin.withAliases aliases) token qs m →
          words ps = words qs → (tags ps).Perm (tags qs) →
            Alike (read (Registry.builtin.withAliases aliases) l num)
              (read (Registry.builtin.withAliases aliases) m num) := by
  obtain ⟨spec, hspec, hname, hres⟩ :=
    (Registry.builtin_leads.withAliases aliases).resolve hstored hcase
  refine ⟨spec, hspec, fun ps l num h honce => ⟨fun args hargs => ?_, fun e he => ?_⟩,
    fun ps l num h htwice => read_twice h htoken hres htwice num,
    fun ps qs l m num hp hq hw ht => read_alike hp hq htoken hres hw ht num⟩
  · rw [read_once h htoken hres honce]
    simp only [finish, hargs, hname]
  · rw [read_once h htoken hres honce]
    simp only [finish, he]

/-- A name of two words, and three tags among them, the first right between the words. -/
def strewn : List Part :=
  [.blank ' ', .word "\"Great".toList, .tag ⟨"Condition", some "!Poor , Good"⟩, .word "Strides\"".toList,
    .blank ' ', .tag ⟨"index", some "02"⟩, .tag ⟨"ECHO", none⟩, .blank ' ']

/-- The same words with the tags in front of them. -/
def inFront : List Part :=
  [.blank ' ', .tag ⟨"ECHO", none⟩, .blank ' ', .tag ⟨"index", some "02"⟩,
    .tag ⟨"Condition", some "!Poor , Good"⟩, .word "\"Great".toList, .blank ' ', .blank ' ',
    .word "Strides\"".toList]

/-- The built-in commands, with one more alias for the first. -/
def zauberRegistry : Registry := Registry.builtin.withAliases [("zauber", "ac")]

theorem strewn_fits : ∀ p ∈ strewn, p.Fits zauberRegistry := by
  have hknown : (tags strewn).all fun a => (meaning? zauberRegistry a).isSome := by decide +kernel
  have hvalid : ∀ a ∈ tags strewn, a.Valid := by
    intro a ha
    simp only [tags, strewn, List.filterMap_cons, List.filterMap_nil, Part.tag?, List.mem_cons,
      List.not_mem_nil, or_false] at ha
    obtain rfl | rfl | rfl := ha
    · exact Tag.valid_some (by decide) (by decide) (by decide)
    · exact Tag.valid_some (by decide) (by decide) (by decide)
    · exact Tag.valid_none (by decide) (by decide)
  have hwords : ∀ w ∈ words strewn, (w ≠ [] ∧ ∀ c ∈ w, Text.isBlank c = false) ∧ '<' ∉ w := by decide
  intro p hp
  cases p with
  | blank c =>
    obtain rfl : c = ' ' := by simpa [strewn] using hp
    exact (by decide : Text.isBlank ' ' = true)
  | word w => exact hwords w (List.mem_filterMap.2 ⟨_, hp, rfl⟩)
  | tag a =>
    have ha : a ∈ tags strewn := List.mem_filterMap.2 ⟨_, hp, rfl⟩
    exact ⟨hvalid a ha, List.all_eq_true.1 hknown a ha⟩

theorem arranged_strewn : ArrangedLine zauberRegistry "ZAUBER" strewn
    "/ZAUBER \"Great<Condition.!Poor , Good>Strides\" <index.02><ECHO> " where
  fits := strewn_fits
  parted := by simp [strewn, Part.Parted, Part.word?]
  apart := by decide
  line := by decide

theorem arranged_inFront : ArrangedLine zauberRegistry "ZAUBER" inFront
    "/ZAUBER <ECHO> <index.02><Condition.!Poor , Good>\"Great  Strides\"" where
  fits := fun p hp => strewn_fits p ((by decide : ∀ p ∈ inFront, p ∈ strewn) p hp)
  parted := by simp [inFront, Part.Parted, Part.word?]
  apart := by decide
  line := by decide

theorem read_strewn : ∃ i,
    read zauberRegistry "/ZAUBER \"Great<Condition.!Poor , Good>Strides\" <index.02><ECHO> " 0 =
        .ok (some i) ∧
      i.command = "action" ∧ i.rawArgs = "\"Great Strides\"" ∧
      i.modifiers.keys = ["condition", "index", "echo"] ∧
      Alike (read zauberRegistry "/ZAUBER \"Great<Condition.!Poor , Good>Strides\" <index.02><ECHO> " 0)
        (read zauberRegistry "/ZAUBER <ECHO> <index.02><Condition.!Poor , Good>\"Great  Strides\"" 0) := by
  have hstored : zauberRegistry.aliases.get? "zauber" = some "action" := by decide +kernel
  have hcase : Text.lower "ZAUBER" = Text.lower "zauber" := by decide +kernel
  obtain ⟨spec, hspec, honce, -, halike⟩ := read_arrangements hstored hcase (by decide)
  have hargs : (zauberRegistry.command? "action").any fun spec =>
      (spec.grammar.read (joined strewn)).toOption.isSome := by decide +kernel
  have hspec' : zauberRegistry.command? "action" = some spec := hspec
  rw [hspec', Option.any_some] at hargs
  cases hr : spec.grammar.read (joined strewn) with
  | error e => simp [hr, Except.toOption] at hargs
  | ok args =>
    have hread := (honce strewn _ 0 arranged_strewn (by decide +kernel)).1 args hr
    have hraw : joined strewn = "\"Great Strides\"" := by decide
    have hkeys : (meanings zauberRegistry (tags strewn)).keys = ["condition", "index", "echo"] := by
      decide +kernel
    exact ⟨_, hread, rfl, hraw, hkeys,
      halike strewn inFront _ _ 0 arranged_strewn arranged_inFront (by decide) (by decide)⟩

/-- An alias with a blank in it can be set, but no line has it as its command word. -/
theorem blank_alias_unknown : ∃ ps,
    ArrangedLine (Registry.builtin.withAliases [("a b", "action")]) "a b" ps "/a b Foo <echo>" ∧
      (Registry.builtin.withAliases [("a b", "action")]).aliases.get? "a b" = some "action" ∧
      (meanings (Registry.builtin.withAliases [("a b", "action")]) (tags ps)).keys.Nodup ∧
      read (Registry.builtin.withAliases [("a b", "action")]) "/a b Foo <echo>" 0 =
        .error ⟨.unknownCommand, "'/a' is not a known command", 0⟩ := by
  refine ⟨[.blank ' ', .word "Foo".toList, .blank ' ', .tag ⟨"echo", none⟩],
    ⟨⟨?_, ?_⟩, by decide, by decide⟩, by decide +kernel, by decide +kernel, ?_⟩
  · have hknown : (meaning? (Registry.builtin.withAliases [("a b", "action")]) ⟨"echo", none⟩).isSome := by
      decide +kernel
    simp only [List.forall_mem_cons, Part.Fits, Text.Word]
    exact ⟨by decide, by decide, by decide, ⟨Tag.valid_none (by decide) (by decide), hknown⟩, by simp⟩
  · simp [Part.Parted, Part.word?]
  · rfl

end Line

end Macros
