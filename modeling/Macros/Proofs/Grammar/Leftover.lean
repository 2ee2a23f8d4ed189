import Macros.Proofs.Grammar.Recounted

/-!
What is left of an argument once its known tags have been taken. They are taken in one pass, so a tag can come
about from what was around them; it can in one way only, when they stood in what would have been its value.
The blanks that are dropped afterwards neither make a tag nor break one.
-/

namespace Macros

namespace Text

/-- What a text comes to behind a character that is not blank, when its words are set with single blanks between
them. -/
def onward : List Char → List Char
  | [] => []
  | c :: s => if isBlank c && !(wordsChars s).isEmpty then ' ' :: spaced s else spaced (c :: s)

theorem spaced_blank {c : Char} (hc : isBlank c) (s : List Char) : spaced (c :: s) = spaced s := by
  rw [spaced, wordsChars_cons_blank hc, ← spaced]

theorem spaced_cons {c : Char} (hc : isBlank c = false) (s : List Char) :
    spaced (c :: s) = c :: onward s := by
  rw [spaced, wordsChars, if_neg (by simp [hc])]
  cases s with
  | nil => rfl
  | cons d s =>
    cases hd : isBlank d with
    | true =>
      rw [onward, spaced_blank hd, wordsChars_cons_blank hd]
      cases hw : wordsChars s with
      | nil => simp [pushWord, spaced, hw]
      | cons w ws => simp [pushWord, hd, spaced, hw]
    | false =>
      cases hw : wordsChars (d :: s) with
      | nil => exact absurd (isBlank_of_wordsChars hw) (by simp [hd])
      | cons w ws => simp [pushWord, hd, onward, spaced, hw, intercalate_eq_flatMap]

/-- Behind a character that is not blank a text goes on as it does, but for the number of its blanks. -/
theorem onward_cons {c : Char} (hc : isBlank c = false) (s : List Char) : onward (c :: s) = c :: onward s := by
  rw [onward, hc, spaced_cons hc]
  rfl

theorem onward_blank {c : Char} (hc : isBlank c) (s : List Char) :
    wordsChars s = [] ∧ onward (c :: s) = [] ∨ onward (c :: s) = ' ' :: spaced s := by
  rw [onward, hc, spaced_blank hc]
  cases hw : wordsChars s with
  | nil => exact .inl ⟨rfl, by simp [spaced, hw]⟩
  | cons w ws => exact .inr (by simp)

theorem filter_onward (s : List Char) : (onward s).filter (!isBlank ·) = s.filter (!isBlank ·) := by
  cases s with
  | nil => rfl
  | cons c s =>
    cases hc : isBlank c with
    | false => rw [onward_cons hc, ← spaced_cons hc, filter_spaced]
    | true =>
      rw [List.filter_cons_of_neg (by simp [hc]), ← filter_spaced s]
      obtain ⟨hw, ho⟩ | ho := onward_blank hc s
      · rw [ho, spaced, hw]
        rfl
      · rw [ho, List.filter_cons_of_neg (by decide)]

end Text

namespace Tag

open Text

/-! Where a tag begins. -/

/-- What a tag can be named. -/
def Named (n : List Char) : Prop := n ≠ [] ∧ ∀ c ∈ n, isNameChar c

/-- What stands behind the name of a tag: the bracket that closes it, or a point, and then no other bracket before
that one. -/
def Closes (s : List Char) : Prop :=
  s.head? = some '>' ∨ ∃ q, s = '.' :: q ∧ q.find? (!isValueChar ·) = some '>'

/-- A name, and what makes a tag of it behind an open bracket. -/
def Starts (n s : List Char) : Prop := ∃ q, s = n ++ q ∧ Closes q

/-- Behind one of its open brackets the text goes on like that. -/
def Opening (P : List Char → Prop) (s : List Char) : Prop := ∃ p q, s = p ++ '<' :: q ∧ P q

variable {n s t : List Char} {c : Char} {P : List Char → Prop}

@[simp] theorem opening_nil : ¬Opening P [] := by
  rintro ⟨p, q, h, -⟩
  simp at h

theorem opening_cons : Opening P (c :: s) ↔ c = '<' ∧ P s ∨ Opening P s := by
  constructor
  · rintro ⟨p, q, h, hq⟩
    cases p with
    | nil =>
      obtain ⟨rfl, rfl⟩ := List.cons.inj h
      exact .inl ⟨rfl, hq⟩
    | cons d p => exact .inr ⟨p, q, (List.cons.inj h).2, hq⟩
  · rintro (⟨rfl, h⟩ | ⟨p, q, rfl, hq⟩)
    · exact ⟨[], s, rfl, h⟩
    · exact ⟨c :: p, q, rfl, hq⟩

theorem opening_append (h : '<' ∉ s) : Opening P (s ++ t) ↔ Opening P t := by
  induction s with
  | nil => rfl
  | cons c s ih =>
    rw [List.mem_cons, not_or] at h
    rw [List.cons_append, opening_cons, ih h.2]
    simp [Ne.symm h.1]

@[simp] theorem starts_nil : Starts [] s ↔ Closes s := by simp [Starts]

@[simp] theorem starts_cons {d : Char} : Starts (d :: n) s ↔ ∃ t, s = d :: t ∧ Starts n t := by
  constructor
  · rintro ⟨q, rfl, h⟩
    exact ⟨n ++ q, rfl, q, rfl, h⟩
  · rintro ⟨t, rfl, q, rfl, h⟩
    exact ⟨q, rfl, h⟩

@[simp] theorem closes_cons : Closes (c :: s) ↔ c = '>' ∨ c = '.' ∧ s.find? (!isValueChar ·) = some '>' := by
  simp [Closes]

theorem closes_closing {v : Option String} (hv : ∀ w, v = some w → ∀ c ∈ w.toList, isValueChar c)
    (r : List Char) : Closes (closing v ++ r) := by
  cases v with
  | none => exact .inl rfl
  | some w =>
    refine .inr ⟨w.toList ++ '>' :: r, by simp [closing], ?_⟩
    have hw : w.toList.find? (!isValueChar ·) = none := List.find?_eq_none.2 fun c hc => by simp [hv w rfl c hc]
    rw [List.find?_append, hw]
    rfl

theorem exists_readValue? (h : Closes s) : ∃ v r, readValue? s = some (v, r) := by
  cases s with
  | nil => simp [Closes] at h
  | cons c q =>
    rcases closes_cons.1 h with rfl | ⟨rfl, hq⟩
    · exact ⟨none, q, rfl⟩
    · rw [List.find?_eq_head?_dropWhile_not] at hq
      simp only [Bool.not_not] at hq
      obtain ⟨r, hr⟩ := List.head?_eq_some_iff.1 hq
      refine ⟨some (String.ofList (q.takeWhile isValueChar)), r, ?_⟩
      rw [readValue?_point, hr]
      rfl

/-- A name starts a tag behind an open bracket just if a tag of the name is read there. -/
theorem starts_iff (hn : Named n) :
    Starts n s ↔ ∃ a r, read? ('<' :: s) = some (a, r) ∧ a.name.toList = n := by
  constructor
  · rintro ⟨q, rfl, hq⟩
    obtain ⟨v, r, hr⟩ := exists_readValue? hq
    obtain ⟨c, q, rfl, hc⟩ : ∃ c q', q = c :: q' ∧ isNameChar c = false := by
      cases q with
      | nil => simp [Closes] at hq
      | cons c q => exact ⟨c, q, rfl, by rcases closes_cons.1 hq with rfl | ⟨rfl, -⟩ <;> decide⟩
    refine ⟨⟨String.ofList n, v⟩, r, ?_, String.toList_ofList⟩
    rw [read?, takeWhile_name hn.2 hc, dropWhile_name hn.2 hc, hr, if_neg (by simp [hn.1])]
    rfl
  · rintro ⟨a, r, h, rfl⟩
    obtain ⟨ha, hs⟩ := read?_some h
    rw [toList_whole, List.cons_append, List.append_assoc] at hs
    exact ⟨_, (List.cons.inj hs).2, closes_closing ha.value r⟩

theorem ne_open_of_value {c : Char} (h : isValueChar c) : c ≠ '<' := by
  rintro rfl
  exact absurd h (by decide)

theorem Valid.closed {a : Tag} (h : a.Valid) : '<' ∉ a.name.toList ++ closing a.value := by
  rw [List.mem_append, not_or]
  refine ⟨fun hc => absurd (h.name _ hc) (by decide), fun hc => ?_⟩
  cases hv : a.value with
  | none => simp [hv, closing] at hc
  | some v =>
    have hc : '<' ∈ v.toList := by simpa [hv, closing] using hc
    exact ne_open_of_value (h.value v hv _ hc) rfl

theorem opening_whole {a : Tag} (ha : a.Valid) : Opening P (a.whole.toList ++ s) ↔
    P (a.name.toList ++ closing a.value ++ s) ∨ Opening P s := by
  rw [toList_whole, List.cons_append, opening_cons, opening_append ha.closed]
  simp

theorem starts_whole {a : Tag} (ha : a.Valid) (hn : Named n) :
    Starts n (a.name.toList ++ closing a.value ++ s) ↔ a.name.toList = n := by
  have hread := read?_whole ha s
  rw [toList_whole, List.cons_append] at hread
  rw [starts_iff hn, hread]
  simp

/-- A tag of the name is among the pieces just if one begins somewhere. -/
theorem starts_iff_mem (hn : Named n) :
    Opening (Starts n) s ↔ ∃ a, .tag a ∈ pieces s ∧ a.name.toList = n := by
  induction s using pieces_induction with
  | nil => simp
  | tag a r ha ih =>
    rw [opening_whole ha, starts_whole ha hn, ih, pieces_whole ha]
    simp
  | plain c s hr ih =>
    have hc : ¬(c = '<' ∧ Starts n s) := by
      rintro ⟨rfl, hs⟩
      obtain ⟨a, r, h, -⟩ := (starts_iff hn).1 hs
      rw [hr] at h
      contradiction
    rw [opening_cons, ih, pieces_plain hr]
    simp [hc]

/-- Behind a name and a point no tag is read just if the next bracket does not close one. -/
theorem read?_point (hn : Named n) :
    read? ('<' :: (n ++ '.' :: s)) = none ↔ s.find? (!isValueChar ·) ≠ some '>' := by
  have hc : isNameChar '.' = false := by decide
  rw [read?, takeWhile_name hn.2 hc, dropWhile_name hn.2 hc, if_neg (by simp [hn.1]), Option.map_eq_none_iff,
    readValue?_point, List.find?_eq_head?_dropWhile_not]
  simp only [Bool.not_not]
  cases s.dropWhile isValueChar with
  | nil => simp
  | cons d q => by_cases hd : d = '>' <;> simp [hd]

/-! Blanks. -/

theorem not_blank_of_name {c : Char} (h : isNameChar c) : isBlank c = false := by
  rw [Bool.eq_false_iff, ne_eq, isBlank_iff]
  have h : (c.isUpper || c.isLower || decide (c = '_')) = true := h
  rw [Bool.or_eq_true, Bool.or_eq_true] at h
  rcases h with (h | h) | h
  · obtain ⟨h1, h2⟩ := of_decide_eq_true h
    have h1 : 65 ≤ c.toNat := h1
    have h2 : c.toNat ≤ 90 := h2
    omega
  · obtain ⟨h1, h2⟩ := (Bool.and_eq_true _ _).mp h
    have h1 : 97 ≤ c.toNat := of_decide_eq_true h1
    have h2 : c.toNat ≤ 122 := of_decide_eq_true h2
    omega
  · obtain rfl := of_decide_eq_true h
    decide

theorem find?_onward : (onward s).find? (!isValueChar ·) = s.find? (!isValueChar ·) := by
  have hb : ∀ t : List Char, (t.filter (!isBlank ·)).find? (!isValueChar ·) = t.find? (!isValueChar ·) := by
    intro t
    rw [List.find?_filter]
    congr 1
    funext c
    by_cases hc : isValueChar c
    · simp [hc]
    · have hc : c = '<' ∨ c = '>' := by
        simp only [isValueChar, Bool.and_eq_true, bne_iff_ne] at hc
        grind
      rcases hc with rfl | rfl <;> decide
  rw [← hb, filter_onward, hb]

theorem closes_onward : Closes (onward s) ↔ Closes s := by
  cases s with
  | nil => rfl
  | cons c s =>
    cases hc : isBlank c with
    | false => rw [onward_cons hc, closes_cons, closes_cons, find?_onward]
    | true =>
      have hs : ¬Closes (c :: s) := fun h => by
        rcases closes_cons.1 h with rfl | ⟨rfl, -⟩ <;> exact absurd hc (by decide)
      refine iff_of_false (fun h => ?_) hs
      obtain ⟨-, ho⟩ | ho := onward_blank hc s <;> rw [ho] at h
      · simp [Closes] at h
      · simp at h

theorem starts_onward (hn : ∀ c ∈ n, isNameChar c) : Starts n (onward s) ↔ Starts n s := by
  induction n generalizing s with
  | nil => rw [starts_nil, starts_nil, closes_onward]
  | cons d n ih =>
    obtain ⟨hd, hn⟩ := List.forall_mem_cons.1 hn
    have hd := not_blank_of_name hd
    rw [starts_cons, starts_cons]
    cases s with
    | nil => rfl
    | cons c s =>
      cases hc : isBlank c with
      | false =>
        rw [onward_cons hc]
        simp only [List.cons.injEq, and_assoc, exists_eq_left', exists_and_left, ih hn]
      | true =>
        have hs : ¬∃ t, c :: s = d :: t ∧ Starts n t := by
          rintro ⟨t, h, -⟩
          rw [(List.cons.inj h).1, hd] at hc
          contradiction
        refine iff_of_false ?_ hs
        rintro ⟨t, h, -⟩
        obtain ⟨-, ho⟩ | ho := onward_blank hc s <;> rw [ho] at h
        · contradiction
        · rw [← (List.cons.inj h).1] at hd
          exact absurd hd (by decide)

theorem opening_onward : Opening P (onward s) ↔ Opening P (spaced s) := by
  cases s with
  | nil => rfl
  | cons c s =>
    cases hc : isBlank c with
    | false => rw [onward_cons hc, ← spaced_cons hc]
    | true =>
      rw [spaced_blank hc]
      obtain ⟨hw, ho⟩ | ho := onward_blank hc s
      · rw [ho, spaced, hw]
        rfl
      · rw [ho, opening_cons]
        simp

/-- No tag comes about, and none is lost, when the words of a text are set with single blanks between them. -/
theorem starts_spaced (hn : ∀ c ∈ n, isNameChar c) :
    Opening (Starts n) (spaced s) ↔ Opening (Starts n) s := by
  induction s with
  | nil => rfl
  | cons c s ih =>
    cases hc : isBlank c with
    | true =>
      have hne : c ≠ '<' := by
        rintro rfl
        exact absurd hc (by decide)
      rw [spaced_blank hc, ih, opening_cons]
      simp [hne]
    | false => rw [spaced_cons hc, opening_cons, opening_cons, starts_onward hn, opening_onward, ih]

end Tag

namespace Line

open Tag

variable {r : Registry} {n s : List Char} {c : Char}

/-! What the pieces of a text leave behind. -/

/-- A text once its known tags have been taken. -/
def remains (r : Registry) (s : List Char) : List Char := (pieces s).flatMap (leftover r)

@[simp] theorem remains_nil (r : Registry) : remains r [] = [] := by
  rw [remains, pieces_nil]
  rfl

theorem remains_whole {a : Tag} (ha : a.Valid) (s : List Char) :
    remains r (a.whole.toList ++ s) = leftover r (.tag a) ++ remains r s := by
  rw [remains, pieces_whole ha, List.flatMap_cons, ← remains]

theorem remains_plain (h : read? (c :: s) = none) : remains r (c :: s) = c :: remains r s := by
  rw [remains, pieces_plain h, List.flatMap_cons, ← remains]
  rfl

theorem remains_cons (hc : c ≠ '<') : remains r (c :: s) = c :: remains r s :=
  remains_plain (by simp [read?, hc])

/-- What is left of a text that begins with a bracket begins with it, or with a blank. -/
theorem remains_open (s : List Char) : ∃ d t, remains r ('<' :: s) = d :: t ∧ (d = '<' ∨ d = ' ') := by
  cases h : read? ('<' :: s) with
  | none => exact ⟨'<', _, remains_plain h, .inl rfl⟩
  | some x =>
    obtain ⟨a, q⟩ := x
    obtain ⟨ha, hs⟩ := read?_some h
    rw [hs, remains_whole ha, leftover]
    split
    · exact ⟨' ', _, rfl, .inr rfl⟩
    · rw [toList_whole]
      exact ⟨'<', _, rfl, .inl rfl⟩

/-- A character that is no bracket and no blank is left exactly where it was. -/
theorem remains_eq_cons {d : Char} (hd : d ≠ '<') (hb : d ≠ ' ') {t : List Char} :
    remains r s = d :: t ↔ ∃ q, s = d :: q ∧ remains r q = t := by
  cases s with
  | nil => simp
  | cons c s =>
    by_cases hc : c = '<'
    · subst hc
      obtain ⟨e, u, hu, he⟩ := remains_open (r := r) s
      rw [hu]
      constructor
      · intro h
        obtain ⟨rfl, -⟩ := List.cons.inj h
        exact (he.elim hd hb).elim
      · rintro ⟨q, h, -⟩
        exact absurd (List.cons.inj h).1.symm hd
    · rw [remains_cons hc]
      simp [and_assoc]

/-- The names in what is left are names of the text. -/
theorem starts_remains (hn : ∀ c ∈ n, isNameChar c) :
    Starts n (remains r s) ↔ ∃ q, s = n ++ q ∧ Closes (remains r q) := by
  induction n generalizing s with
  | nil => simp
  | cons d n ih =>
    obtain ⟨hd, hn⟩ := List.forall_mem_cons.1 hn
    have h1 : d ≠ '<' := by
      rintro rfl
      exact absurd hd (by decide)
    have h2 : d ≠ ' ' := by
      rintro rfl
      exact absurd hd (by decide)
    rw [starts_cons]
    simp only [remains_eq_cons h1 h2]
    constructor
    · rintro ⟨_, ⟨q, rfl, rfl⟩, h⟩
      obtain ⟨u, rfl, hu⟩ := (ih hn).1 h
      exact ⟨u, rfl, hu⟩
    · rintro ⟨q, rfl, h⟩
      exact ⟨_, ⟨n ++ q, rfl, rfl⟩, (ih hn).2 ⟨q, rfl, h⟩⟩

/-- Once the known tags are taken, a known tag begins just where its name and a point stood behind a bracket that
began no tag, and the next bracket left closes it. -/
theorem starts_remains_iff (hn : Named n) (hk : (r.modifier? (String.ofList n)).isSome) :
    Opening (Starts n) (remains r s) ↔ Opening (fun t => read? ('<' :: t) = none ∧
      ∃ q, t = n ++ '.' :: q ∧ (remains r q).find? (!isValueChar ·) = some '>') s := by
  induction s using pieces_induction with
  | nil => rw [remains_nil]; exact iff_of_false opening_nil opening_nil
  | tag a t ha ih =>
    have hread := read?_whole ha t
    rw [toList_whole, List.cons_append] at hread
    rw [opening_whole ha, hread, remains_whole ha, leftover]
    split
    · rw [List.singleton_append, opening_cons, ih]
      simp
    · next hu =>
      have hne : a.name.toList ≠ n := by
        rintro rfl
        rw [String.ofList_toList] at hk
        exact hu hk
      rw [opening_whole ha, starts_whole ha hn, ih]
      simp [hne]
  | plain c t hr ih =>
    rw [remains_plain hr, opening_cons, opening_cons, ih]
    refine or_congr_left (and_congr_right ?_)
    rintro rfl
    rw [starts_remains hn.2, and_iff_right hr]
    constructor
    · rintro ⟨q, rfl, hq⟩
      cases hl : remains r q with
      | nil => simp [hl, Closes] at hq
      | cons d u =>
        rw [hl, closes_cons] at hq
        rcases hq with rfl | ⟨rfl, hu⟩
        · -- the closing bracket would have made a tag of the name in the text itself
          obtain ⟨q, rfl, -⟩ := (remains_eq_cons (by decide) (by decide)).1 hl
          obtain ⟨a, w, hw, -⟩ := (starts_iff hn).1 ⟨'>' :: q, rfl, .inl rfl⟩
          rw [hr] at hw
          contradiction
        · obtain ⟨q, rfl, rfl⟩ := (remains_eq_cons (by decide) (by decide)).1 hl
          exact ⟨q, rfl, hu⟩
    · rintro ⟨q, rfl, hq⟩
      refine ⟨'.' :: q, rfl, ?_⟩
      rw [remains_cons (by decide), closes_cons]
      exact .inr ⟨rfl, hq⟩

/-- The next bracket left closes just if what comes before such a bracket leaves no bracket. -/
theorem find?_remains : (remains r s).find? (!isValueChar ·) = some '>' ↔
    ∃ inner q, s = inner ++ '>' :: q ∧ ∀ c ∈ remains r inner, isValueChar c := by
  constructor
  · intro h
    induction s using pieces_induction with
    | nil => simp at h
    | tag a t ha ih =>
      rw [remains_whole ha, leftover] at h
      split at h
      · next hk =>
        have hb : isValueChar ' ' := by decide
        obtain ⟨inner, q, rfl, hi⟩ := ih (by simpa [hb] using h)
        refine ⟨a.whole.toList ++ inner, q, by rw [List.append_assoc], ?_⟩
        rw [remains_whole ha, leftover, if_pos hk]
        exact List.forall_mem_cons.2 ⟨hb, hi⟩
      · have hb : isValueChar '<' = false := by decide
        simp [hb] at h
    | plain c t hr ih =>
      rw [remains_plain hr] at h
      by_cases hc : isValueChar c
      · have hne := ne_open_of_value hc
        obtain ⟨inner, q, rfl, hi⟩ := ih (by simpa [hc] using h)
        refine ⟨c :: inner, q, rfl, ?_⟩
        rw [remains_cons hne]
        exact List.forall_mem_cons.2 ⟨hc, hi⟩
      · obtain rfl : c = '>' := by simpa [hc] using h
        exact ⟨[], t, rfl, by simp⟩
  · rintro ⟨inner, q, rfl, h⟩
    have hb : isValueChar '>' = false := by decide
    induction inner using pieces_induction with
    | nil =>
      rw [List.nil_append, remains_cons (by decide)]
      simp [hb]
    | tag a t ha ih =>
      rw [List.append_assoc]
      rw [remains_whole ha] at h ⊢
      obtain ⟨hl, ht⟩ := List.forall_mem_append.1 h
      have hn : (leftover r (.tag a)).find? (!isValueChar ·) = none :=
        List.find?_eq_none.2 fun c hc => by simp [hl c hc]
      rw [List.find?_append, hn]
      exact ih ht
    | plain c t hr ih =>
      rw [remains_plain hr] at h
      obtain ⟨hc, ht⟩ := List.forall_mem_cons.1 h
      rw [List.cons_append, remains_cons (ne_open_of_value hc)]
      simpa [hc] using ih ht

/-- Where only tags are taken, the first bracket opens one. -/
theorem find?_open (h : ∀ c ∈ remains r s, isValueChar c) :
    s.find? (!isValueChar ·) = if '<' ∈ s then some '<' else none := by
  induction s using pieces_induction with
  | nil => rfl
  | tag a t ha ih =>
    have hb : isValueChar '<' = false := by decide
    simp [hb]
  | plain c t hr ih =>
    rw [remains_plain hr] at h
    obtain ⟨hc, ht⟩ := List.forall_mem_cons.1 h
    simp [hc, ih ht, (ne_open_of_value hc).symm]

/-- A text in which the value of a known tag is cut off by other tags, all of them known; once they are taken,
it no longer is. -/
def Encloses (r : Registry) (s : List Char) : Prop :=
  ∃ p n inner q, s = p ++ '<' :: (n ++ '.' :: (inner ++ '>' :: q)) ∧ Named n ∧
    (r.modifier? (String.ofList n)).isSome ∧ '<' ∈ inner ∧ ∀ c ∈ remains r inner, isValueChar c

/-- A known tag is left of a text just if the text encloses known tags in the value of one. -/
theorem encloses_iff : Encloses r s ↔ ∃ n, Named n ∧ (r.modifier? (String.ofList n)).isSome ∧
    Opening (Starts n) (remains r s) := by
  have hinner : ∀ inner q, (∀ c ∈ remains r inner, isValueChar c) →
      ((inner ++ '>' :: q).find? (!isValueChar ·) ≠ some '>' ↔ '<' ∈ inner) := by
    intro inner q h
    have hb : isValueChar '>' = false := by decide
    rw [List.find?_append, find?_open h]
    split
    · next ho => simp [ho]
    · next ho => simp [ho, hb]
  constructor
  · rintro ⟨p, n, inner, q, rfl, hn, hk, ho, hi⟩
    refine ⟨n, hn, hk, (starts_remains_iff hn hk).2 ⟨p, _, rfl, ?_, _, rfl, ?_⟩⟩
    · rw [read?_point hn, hinner inner q hi]
      exact ho
    · exact find?_remains.2 ⟨inner, q, rfl, hi⟩
  · rintro ⟨n, hn, hk, h⟩
    obtain ⟨p, _, rfl, hr, _, rfl, hq⟩ := (starts_remains_iff hn hk).1 h
    obtain ⟨inner, q, rfl, hi⟩ := find?_remains.1 hq
    rw [read?_point hn, hinner inner q hi] at hr
    exact ⟨p, n, inner, q, rfl, hn, hk, hr, hi⟩

/-- Known tags by what their names are made of. -/
theorem exists_known_iff {raw : String} : (∃ a ∈ findAll raw, (r.modifier? a.name).isSome) ↔
    ∃ n, Named n ∧ (r.modifier? (String.ofList n)).isSome ∧ Opening (Starts n) raw.toList := by
  constructor
  · rintro ⟨a, ha, hk⟩
    have ha := mem_findAll.1 ha
    obtain ⟨hne, hname, -⟩ := valid_of_mem_pieces ha
    exact ⟨a.name.toList, ⟨hne, hname⟩, by rwa [String.ofList_toList],
      (starts_iff_mem ⟨hne, hname⟩).2 ⟨a, ha, rfl⟩⟩
  · rintro ⟨n, hn, hk, h⟩
    obtain ⟨a, ha, rfl⟩ := (starts_iff_mem hn).1 h
    exact ⟨a, mem_findAll.2 ha, by rwa [String.ofList_toList] at hk⟩

/-- The argument of an instruction has no known tag just if the line encloses no known tags in the value of one. -/
theorem no_known_left_iff {line : String} {num : Int} {i : Instruction} (h : read r line num = .ok (some i)) :
    (∀ a ∈ findAll i.rawArgs, r.modifier? a.name = none) ↔
      ¬Encloses r (Text.nextWord (Text.trimChars line.toList)).2 := by
  obtain ⟨spec, hi⟩ := read_some h
  obtain ⟨hraw, -⟩ := takeModifiers_ok hi.taken
  have hknown : (∃ a ∈ findAll i.rawArgs, (r.modifier? a.name).isSome) ↔
      Encloses r (Text.nextWord (Text.trimChars line.toList)).2 := by
    rw [exists_known_iff, encloses_iff, hraw]
    exact exists_congr fun n => and_congr_right fun hn => and_congr_right fun _ => starts_spaced hn.2
  rw [← hknown]
  simp

/-- Known tags around an unknown one, in it, and behind a bracket that opens nothing. -/
theorem groundwork_left : ∃ i, read (Registry.builtin.withAliases [("zauber", "ac")])
      "/ZAUBER Ground<WAIT.1.5>work  <me.<echo>> < <unsafe" 3 = .ok (some i) ∧
    i.rawArgs = "Ground work <me. > < <unsafe" ∧
    ((∀ a ∈ findAll i.rawArgs, (Registry.builtin.withAliases [("zauber", "ac")]).modifier? a.name = none) ↔
      ¬Encloses (Registry.builtin.withAliases [("zauber", "ac")])
        (Text.nextWord (Text.trimChars "/ZAUBER Ground<WAIT.1.5>work  <me.<echo>> < <unsafe".toList)).2) := by
  have hread : ((read (Registry.builtin.withAliases [("zauber", "ac")])
      "/ZAUBER Ground<WAIT.1.5>work  <me.<echo>> < <unsafe" 3).toOption.join.any fun i =>
        i.rawArgs == "Ground work <me. > < <unsafe") = true := by
    decide +kernel
  obtain ⟨i, hi, hp⟩ := read_of_check hread
  exact ⟨i, hi, by simpa using hp, no_known_left_iff hi⟩

/-- Taking `<echo>` makes a wait of what was around it: it is passed on as text, and comes to life when the
argument is read again. -/
theorem wait_left : ∃ i j, read Registry.builtin "/echo Hi <wait.<echo>1>" 0 = .ok (some i) ∧
    i.rawArgs = "Hi <wait. 1>" ∧ i.has "wait" = false ∧
    (∃ a ∈ findAll i.rawArgs, (Registry.builtin.modifier? a.name).isSome) ∧
    read Registry.builtin ("/echo " ++ i.rawArgs) 0 = .ok (some j) ∧ j.has "wait" = true := by
  have hread : ((read Registry.builtin "/echo Hi <wait.<echo>1>" 0).toOption.join.any fun i =>
      i.rawArgs == "Hi <wait. 1>" && !i.has "wait") = true := by
    decide +kernel
  have hagain : ((read Registry.builtin "/echo Hi <wait. 1>" 0).toOption.join.any (·.has "wait")) = true := by
    decide +kernel
  obtain ⟨i, hi, hp⟩ := read_of_check hread
  obtain ⟨j, hj, hw⟩ := read_of_check hagain
  simp only [Bool.and_eq_true, beq_iff_eq, Bool.not_eq_true'] at hp
  refine ⟨i, j, hi, hp.1, hp.2, ⟨⟨"wait", some " 1"⟩, ?_, by decide +kernel⟩, ?_, hw⟩
  · rw [hp.1]
    decide +kernel
  · rw [hp.1]
    exact hj

end Line

end Macros
