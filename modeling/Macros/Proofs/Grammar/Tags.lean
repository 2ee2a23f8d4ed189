import Macros.Grammar.Tag

/-!
Where the tags of a text are. A tag is read back from its own text whatever follows it, and the
tags of two texts put together are those of the one and then those of the other, as long as the
second begins with a blank and a tag: no tag forms across such a seam, and none is lost.
-/

namespace Macros.Tag

/-- A tag that can be written: its name has letters, and no bracket is in its value. -/
structure Valid (a : Tag) : Prop where
  named : a.name.toList ≠ []
  name : ∀ c ∈ a.name.toList, isNameChar c
  value : ∀ v, a.value = some v → ∀ c ∈ v.toList, isValueChar c

theorem valid_none {name : String} (hn : name.toList ≠ []) (h : name.toList.all isNameChar) :
    Valid ⟨name, none⟩ :=
  ⟨hn, List.all_eq_true.1 h, by simp⟩

theorem valid_some {name value : String} (hn : name.toList ≠ []) (h : name.toList.all isNameChar)
    (hv : ∀ c ∈ value.toList, isValueChar c) : Valid ⟨name, some value⟩ :=
  ⟨hn, List.all_eq_true.1 h, by simpa using hv⟩

/-- The text behind the name of a tag. -/
def closing : Option String → List Char
  | none => ['>']
  | some v => '.' :: (v.toList ++ ['>'])

@[simp] theorem toList_whole (a : Tag) : a.whole.toList = '<' :: (a.name.toList ++ closing a.value) := by
  unfold whole closing
  split <;> simp_all

theorem takeWhile_name {n r : List Char} {c : Char} (h : ∀ c ∈ n, isNameChar c)
    (hc : isNameChar c = false) : (n ++ c :: r).takeWhile isNameChar = n := by
  rw [List.takeWhile_append_of_pos h, List.takeWhile_cons_of_neg (by simp [hc]), List.append_nil]

theorem dropWhile_name {n r : List Char} {c : Char} (h : ∀ c ∈ n, isNameChar c)
    (hc : isNameChar c = false) : (n ++ c :: r).dropWhile isNameChar = c :: r := by
  rw [List.dropWhile_append_of_pos h, List.dropWhile_cons_of_neg (by simp [hc])]

/-- A tag is read back from its text. -/
theorem read?_whole {a : Tag} (h : a.Valid) (r : List Char) :
    read? (a.whole.toList ++ r) = some (a, r) := by
  obtain ⟨name, value⟩ := a
  obtain ⟨hn, hname, hvalue⟩ := h
  have he : name.toList.isEmpty = false := by simpa using hn
  rw [toList_whole]
  cases value with
  | none =>
    have hclose : isNameChar '>' = false := by decide
    simp only [closing, List.cons_append, List.append_assoc, List.nil_append, read?]
    rw [takeWhile_name hname hclose, dropWhile_name hname hclose, if_neg (by simp [he])]
    simp [readValue?]
  | some v =>
    have hpoint : isNameChar '.' = false := by decide
    have hv := hvalue v rfl
    have hclose : ¬ isValueChar '>' = true := by decide
    simp only [closing, List.cons_append, List.append_assoc, List.nil_append, read?]
    rw [takeWhile_name hname hpoint, dropWhile_name hname hpoint, if_neg (by simp [he])]
    simp only [readValue?]
    rw [List.dropWhile_append_of_pos hv, List.dropWhile_cons_of_neg hclose,
      List.takeWhile_append_of_pos hv, List.takeWhile_cons_of_neg hclose]
    simp

theorem all_takeWhile (p : Char → Bool) (s : List Char) : ∀ c ∈ s.takeWhile p, p c := fun c hc =>
  List.all_eq_true.1 (List.all_takeWhile) c hc

theorem readValue?_point (q : List Char) : readValue? ('.' :: q) =
    match q.dropWhile isValueChar with
    | '>' :: r => some (some (String.ofList (q.takeWhile isValueChar)), r)
    | _ => none := rfl

theorem readValue?_some {s r : List Char} {v : Option String} (h : readValue? s = some (v, r)) :
    (∀ w, v = some w → ∀ c ∈ w.toList, isValueChar c) ∧ s = closing v ++ r := by
  cases s with
  | nil => simp [readValue?] at h
  | cons c q =>
    by_cases hc : c = '>'
    · subst hc
      obtain ⟨rfl, rfl⟩ := Prod.mk.inj (Option.some.inj h)
      exact ⟨by simp, rfl⟩
    by_cases hp : c = '.'
    · subst hp
      rw [readValue?_point] at h
      have hq := List.takeWhile_append_dropWhile (p := isValueChar) (l := q)
      cases hd : q.dropWhile isValueChar with
      | nil => simp [hd] at h
      | cons d r' =>
        rw [hd] at h hq
        by_cases hc : d = '>'
        · subst hc
          obtain ⟨rfl, rfl⟩ := Prod.mk.inj (Option.some.inj h)
          refine ⟨?_, by simp [closing, hq]⟩
          rintro w hw c hc
          obtain rfl := Option.some.inj hw
          rw [String.toList_ofList] at hc
          exact all_takeWhile _ _ c hc
        · simp [hc] at h
    · simp [readValue?, hc, hp] at h

/-- What is read as a tag is the text of a tag. -/
theorem read?_some {s r : List Char} {a : Tag} (h : read? s = some (a, r)) :
    a.Valid ∧ s = a.whole.toList ++ r := by
  unfold read? at h
  split at h
  · next t =>
    split at h
    · contradiction
    · next hn =>
      obtain ⟨⟨v, r'⟩, hv, he⟩ := Option.map_eq_some_iff.1 h
      obtain ⟨rfl, rfl⟩ := Prod.mk.inj he
      obtain ⟨hvalue, hd⟩ := readValue?_some hv
      refine ⟨⟨?_, ?_, hvalue⟩, ?_⟩
      · simpa using hn
      · rw [String.toList_ofList]
        exact all_takeWhile _ _
      · rw [toList_whole, String.toList_ofList, List.cons_append, List.append_assoc, ← hd,
          List.takeWhile_append_dropWhile]
  · contradiction

/-- A text is one tag as a whole just if it is the text of a tag. -/
theorem read?_iff_whole {text : String} {a : Tag} :
    read? text.toList = some (a, []) ↔ a.Valid ∧ text = a.whole := by
  constructor
  · intro h
    obtain ⟨ha, ht⟩ := read?_some h
    exact ⟨ha, String.toList_inj.1 (by rw [ht, List.append_nil])⟩
  · rintro ⟨ha, rfl⟩
    simpa using read?_whole ha []

/-- Tags of one name that have the same text are the same. -/
theorem eq_of_whole {a b : Tag} (hn : a.name = b.name) (h : a.whole = b.whole) : a = b := by
  obtain ⟨name, v⟩ := a
  obtain ⟨name', w⟩ := b
  dsimp only at hn
  subst hn
  have hc : closing v = closing w := by
    simpa using congrArg String.toList h
  cases v <;> cases w <;> simp_all [closing, String.toList_inj]

/-- Nothing, or a blank and an open bracket: what may follow a text without touching its tags. -/
def Seam (t : List Char) : Prop := t = [] ∨ ∃ r, t = ' ' :: '<' :: r

theorem Seam.takeWhile_name {t : List Char} (h : Seam t) : t.takeWhile isNameChar = [] := by
  obtain rfl | ⟨r, rfl⟩ := h
  · rfl
  · exact List.takeWhile_cons_of_neg (by decide)

theorem Seam.dropWhile_name {t : List Char} (h : Seam t) : t.dropWhile isNameChar = t := by
  obtain rfl | ⟨r, rfl⟩ := h
  · rfl
  · exact List.dropWhile_cons_of_neg (by decide)

theorem Seam.readValue? {t : List Char} (h : Seam t) : readValue? t = none := by
  obtain rfl | ⟨r, rfl⟩ := h <;> rfl

/-- A value that is open at the seam stays open. -/
theorem Seam.dropWhile_value {t : List Char} (h : Seam t) :
    t.dropWhile isValueChar = [] ∨ ∃ r, t.dropWhile isValueChar = '<' :: r := by
  obtain rfl | ⟨r, rfl⟩ := h
  · exact .inl rfl
  · refine .inr ⟨r, ?_⟩
    rw [List.dropWhile_cons_of_pos (by decide), List.dropWhile_cons_of_neg (by decide)]

theorem readValue?_append {s t : List Char} (ht : Seam t) (h : readValue? s = none) :
    readValue? (s ++ t) = none := by
  match s with
  | [] => exact ht.readValue?
  | c :: q =>
    by_cases hp : c = '.'
    · subst hp
      rw [readValue?_point] at h
      rw [List.cons_append, readValue?_point, List.dropWhile_append]
      cases hd : q.dropWhile isValueChar with
      | nil =>
        rw [List.isEmpty_nil, if_pos rfl]
        obtain ht | ⟨r, ht⟩ := ht.dropWhile_value <;> simp [ht]
      | cons d r =>
        have hc : d ≠ '>' := by
          rintro rfl
          simp [hd] at h
        simp [hc]
    · have hc : c ≠ '>' := by
        rintro rfl
        simp [Tag.readValue?] at h
      simp [Tag.readValue?, hp, hc]

/-- No tag forms across a seam. -/
theorem read?_append {s t : List Char} (hs : s ≠ []) (ht : Seam t) (h : read? s = none) :
    read? (s ++ t) = none := by
  match s with
  | [] => exact absurd rfl hs
  | c :: q =>
    by_cases hc : c = '<'
    · subst hc
      simp only [read?, List.cons_append] at h ⊢
      have htake : (q ++ t).takeWhile isNameChar = q.takeWhile isNameChar := by
        rw [List.takeWhile_append]
        split
        · next hl =>
          rw [ht.takeWhile_name, List.append_nil]
          exact ((List.takeWhile_prefix _).eq_of_length hl).symm
        · rfl
      have hdrop : (q ++ t).dropWhile isNameChar = q.dropWhile isNameChar ++ t := by
        rw [List.dropWhile_append]
        split
        · next he => rw [List.isEmpty_iff.1 he, ht.dropWhile_name]; rfl
        · rfl
      rw [htake, hdrop]
      split
      · rfl
      · next hn =>
        rw [if_neg hn, Option.map_eq_none_iff] at h
        rw [readValue?_append ht h]
        rfl
    · simp [read?, hc]

/-! The pieces of a text. -/

@[simp] theorem pieces_nil : pieces [] = [] := by
  rw [pieces]
  rfl

theorem pieces_tag {s r : List Char} {a : Tag} (h : read? s = some (a, r)) :
    pieces s = .tag a :: pieces r := by
  rw [pieces]
  split
  · next he =>
    rw [h] at he
    obtain ⟨rfl, rfl⟩ := Prod.mk.inj (Option.some.inj he)
    rfl
  · next he =>
    rw [h] at he
    contradiction

theorem pieces_plain {c : Char} {s : List Char} (h : read? (c :: s) = none) :
    pieces (c :: s) = .plain c :: pieces s := by
  rw [pieces]
  split
  · next he =>
    rw [h] at he
    contradiction
  · rfl

theorem pieces_blank (s : List Char) : pieces (' ' :: s) = .plain ' ' :: pieces s :=
  pieces_plain rfl

theorem pieces_whole {a : Tag} (h : a.Valid) (r : List Char) :
    pieces (a.whole.toList ++ r) = .tag a :: pieces r :=
  pieces_tag (read?_whole h r)

/-- The tags of a text, with what stands between them, found by going through it once. -/
theorem pieces_induction {motive : List Char → Prop} (nil : motive [])
    (tag : ∀ (a : Tag) (r : List Char), a.Valid → motive r → motive (a.whole.toList ++ r))
    (plain : ∀ c s, read? (c :: s) = none → motive s → motive (c :: s)) (s : List Char) :
    motive s := by
  induction s using pieces.induct with
  | case1 s a r h ih =>
    obtain ⟨ha, rfl⟩ := read?_some h
    exact tag a r ha ih
  | case2 h => exact nil
  | case3 c s h ih => exact plain c s h ih

theorem pieces_append (s : List Char) {t : List Char} (ht : Seam t) :
    pieces (s ++ t) = pieces s ++ pieces t := by
  induction s using pieces_induction with
  | nil => rw [pieces_nil]; rfl
  | tag a r ha ih =>
    rw [List.append_assoc, pieces_whole ha, pieces_whole ha, ih, List.cons_append]
  | plain c s h ih =>
    have hs := read?_append (List.cons_ne_nil c s) ht h
    rw [List.cons_append] at hs ⊢
    rw [pieces_plain h, pieces_plain hs, ih, List.cons_append]

/-- The text of a piece. -/
def Piece.chars : Piece → List Char
  | .plain c => [c]
  | .tag a => a.whole.toList

theorem chars_pieces (s : List Char) : (pieces s).flatMap Piece.chars = s := by
  induction s using pieces_induction with
  | nil => rw [pieces_nil]; rfl
  | tag a r ha ih => rw [pieces_whole ha, List.flatMap_cons, ih]; rfl
  | plain c s h ih => rw [pieces_plain h, List.flatMap_cons, ih]; rfl

theorem valid_of_mem_pieces {s : List Char} {a : Tag} (h : .tag a ∈ pieces s) : a.Valid := by
  induction s using pieces_induction with
  | nil => simp at h
  | tag b r hb ih =>
    rw [pieces_whole hb, List.mem_cons] at h
    rcases h with h | h
    · obtain rfl := Piece.tag.inj h
      exact hb
    · exact ih h
  | plain c s hr ih =>
    rw [pieces_plain hr] at h
    exact ih (by simpa using h)

theorem mem_findAll {s : String} {a : Tag} : a ∈ findAll s ↔ .tag a ∈ pieces s.toList := by
  rw [findAll, List.mem_filterMap]
  constructor
  · rintro ⟨p, hp, he⟩
    cases p with
    | plain c => contradiction
    | tag b => rwa [← Option.some.inj he]
  · exact fun h => ⟨_, h, rfl⟩

/-- Tags, each with a blank in front. -/
def behind (tags : List Tag) : List Char := tags.flatMap fun a => ' ' :: a.whole.toList

theorem seam_behind (tags : List Tag) : Seam (behind tags) := by
  cases tags with
  | nil => exact .inl rfl
  | cons a tags =>
    rw [behind, List.flatMap_cons, toList_whole]
    exact .inr ⟨_, rfl⟩

theorem pieces_behind {tags : List Tag} (h : ∀ a ∈ tags, a.Valid) :
    pieces (behind tags) = tags.flatMap fun a => [.plain ' ', .tag a] := by
  induction tags with
  | nil => exact pieces_nil
  | cons a tags ih =>
    rw [behind, List.flatMap_cons, List.cons_append, pieces_blank,
      pieces_whole (h a List.mem_cons_self), ← behind, ih fun b hb => h b (List.mem_cons_of_mem a hb)]
    rfl

end Macros.Tag
