import Macros.Proofs.Tree.FreeName

/-!
The words of a text. A blank between two texts parts their words, so words with single blanks
between them are the words of that text again; and a list of texts without commas is found again
in the text that has commas between them.
-/

namespace Macros.Text

/-- What the words of a text are: they are not empty, and no character is a blank. -/
def Word (w : List Char) : Prop := w ≠ [] ∧ ∀ c ∈ w, isBlank c = false

theorem wordsChars_cons_blank {c : Char} (hc : isBlank c) (s : List Char) :
    wordsChars (c :: s) = wordsChars s := by
  rw [wordsChars, if_pos hc]

theorem pushWord_blank (c : Char) {b : Char} (hb : isBlank b) (s : List Char)
    (ws : List (List Char)) : pushWord c (b :: s) ws = [c] :: ws := by
  cases ws with
  | nil => rfl
  | cons w ws => rw [pushWord, if_pos hb]

theorem isBlank_of_wordsChars {c : Char} {s : List Char} (h : wordsChars (c :: s) = []) :
    isBlank c := by
  by_cases hc : isBlank c
  · exact hc
  · rw [wordsChars, if_neg hc] at h
    unfold pushWord at h
    split at h
    · split at h <;> simp at h
    · simp at h

/-- The words are parted at a blank. Every other fact about them follows from this. -/
theorem wordsChars_append_blank (s : List Char) {b : Char} (hb : isBlank b) (t : List Char) :
    wordsChars (s ++ b :: t) = wordsChars s ++ wordsChars t := by
  induction s with
  | nil => exact wordsChars_cons_blank hb t
  | cons c s ih =>
    by_cases hc : isBlank c
    · rw [List.cons_append, wordsChars_cons_blank hc, wordsChars_cons_blank hc, ih]
    · rw [List.cons_append, wordsChars, if_neg hc, wordsChars, if_neg hc, ih]
      cases s with
      | nil => exact pushWord_blank c hb t _
      | cons d s =>
        cases hw : wordsChars (d :: s) with
        | nil =>
          have hd := isBlank_of_wordsChars hw
          rw [List.cons_append, pushWord_blank c hd, pushWord_blank c hd]
          rfl
        | cons w ws =>
          simp only [List.cons_append, pushWord]
          split <;> rfl

theorem wordsChars_word {w : List Char} (h : Word w) : wordsChars w = [w] := by
  obtain ⟨hne, h⟩ := h
  induction w with
  | nil => exact absurd rfl hne
  | cons c w ih =>
    have hc : isBlank c = false := h c List.mem_cons_self
    rw [wordsChars, if_neg (by simp [hc])]
    cases w with
    | nil => rfl
    | cons d w =>
      rw [ih (List.cons_ne_nil d w) fun e he => h e (List.mem_cons_of_mem c he), pushWord,
        if_neg (by simp [h d (by simp)])]

theorem word_of_mem {s w : List Char} (h : w ∈ wordsChars s) : Word w := by
  induction s generalizing w with
  | nil => exact absurd h List.not_mem_nil
  | cons c s ih =>
    by_cases hc : isBlank c
    · rw [wordsChars_cons_blank hc] at h
      exact ih h
    · have hsingle : Word [c] := ⟨by simp, by simpa using hc⟩
      rw [wordsChars, if_neg hc] at h
      unfold pushWord at h
      split at h
      · next d s v vs hv =>
        have hcons : Word (c :: v) := by
          obtain ⟨-, hvb⟩ := ih (hv ▸ List.mem_cons_self)
          exact ⟨by simp, by simpa using ⟨by simpa using hc, hvb⟩⟩
        split at h
        · rcases List.mem_cons.1 h with rfl | h
          · exact hsingle
          · exact ih (hv ▸ h)
        · rcases List.mem_cons.1 h with rfl | h
          · exact hcons
          · exact ih (hv ▸ List.mem_cons_of_mem v h)
      · rcases List.mem_cons.1 h with rfl | h
        · exact hsingle
        · exact ih h

theorem wordsChars_intercalate {ws : List (List Char)} (h : ∀ w ∈ ws, Word w) :
    wordsChars ([' '].intercalate ws) = ws := by
  induction ws with
  | nil => rfl
  | cons w ws ih =>
    have hw := wordsChars_word (h w List.mem_cons_self)
    have hws := ih fun v hv => h v (List.mem_cons_of_mem w hv)
    cases ws with
    | nil => rwa [List.intercalate_singleton]
    | cons v vs =>
      rw [List.intercalate_cons_cons, List.append_assoc, List.singleton_append,
        wordsChars_append_blank _ (by decide), hw, hws]
      rfl

theorem wordsChars_blanks {s : List Char} (h : ∀ c ∈ s, isBlank c) : wordsChars s = [] := by
  induction s with
  | nil => rfl
  | cons c s ih =>
    rw [wordsChars_cons_blank (h c List.mem_cons_self)]
    exact ih fun d hd => h d (List.mem_cons_of_mem c hd)

/-- The words of a text with single blanks between them. -/
def spaced (s : List Char) : List Char := [' '].intercalate (wordsChars s)

theorem wordsChars_spaced (s : List Char) : wordsChars (spaced s) = wordsChars s :=
  wordsChars_intercalate fun _ => word_of_mem

theorem flatten_pushWord (c : Char) (s : List Char) (ws : List (List Char)) :
    (pushWord c s ws).flatten = c :: ws.flatten := by
  unfold pushWord
  split
  · split <;> simp
  · simp

/-- The words are what is not blank. -/
theorem flatten_wordsChars (s : List Char) : (wordsChars s).flatten = s.filter (!isBlank ·) := by
  induction s with
  | nil => rfl
  | cons c s ih =>
    by_cases hc : isBlank c
    · rw [wordsChars_cons_blank hc, ih, List.filter_cons_of_neg (by simp [hc])]
    · rw [wordsChars, if_neg hc, flatten_pushWord, ih, List.filter_cons_of_pos (by simp [hc])]

theorem filter_spaced (s : List Char) :
    (spaced s).filter (!isBlank ·) = s.filter (!isBlank ·) := by
  rw [← flatten_wordsChars, wordsChars_spaced, flatten_wordsChars]

theorem toList_spaced (s : List Char) :
    (" ".intercalate ((wordsChars s).map String.ofList)).toList = spaced s := by
  simp [spaced, List.map_map, Function.comp_def]

theorem intercalate_eq_flatMap {sep : Char} (w : List Char) (ws : List (List Char)) :
    [sep].intercalate (w :: ws) = w ++ ws.flatMap (sep :: ·) := by
  induction ws generalizing w with
  | nil => simp
  | cons v ws ih => rw [List.intercalate_cons_cons, ih]; simp

theorem Word.first {w : List Char} (h : Word w) : ∀ c ∈ w.head?, isBlank c = false :=
  fun c hc => h.2 c (List.mem_of_mem_head? hc)

theorem Word.last {w : List Char} (h : Word w) : ∀ c ∈ w.getLast?, isBlank c = false :=
  fun c hc => h.2 c (List.mem_of_mem_getLast? hc)

theorem Word.trimmed {w : List Char} (h : Word w) : Trimmed w := ⟨h.first, h.last⟩

/-- Whatever stands between two texts, the whole begins as the one and ends as the other. -/
theorem Trimmed.between {s t : List Char} (hs : Trimmed s) (hsn : s ≠ []) (ht : Trimmed t)
    (htn : t ≠ []) (m : List Char) : Trimmed (s ++ m ++ t) := by
  constructor
  · rw [List.append_assoc, List.head?_append, Option.or_of_isSome (List.isSome_head?.2 hsn)]
    exact hs.first
  · rw [List.getLast?_append, Option.or_of_isSome (List.getLast?_isSome.2 htn)]
    exact ht.last

theorem trimmed_intercalate {sep : Char} {ws : List (List Char)} (h : ∀ w ∈ ws, Trimmed w ∧ w ≠ []) :
    Trimmed ([sep].intercalate ws) ∧ ([sep].intercalate ws = [] → ws = []) := by
  induction ws with
  | nil => exact ⟨⟨by simp, by simp⟩, fun _ => rfl⟩
  | cons w ws ih =>
    obtain ⟨hw, hwn⟩ := h w List.mem_cons_self
    obtain ⟨ht, hn⟩ := ih fun v hv => h v (List.mem_cons_of_mem w hv)
    cases ws with
    | nil => exact ⟨by simpa using hw, fun he => absurd (by simpa using he) hwn⟩
    | cons v vs =>
      rw [List.intercalate_cons_cons]
      refine ⟨hw.between hwn ht (fun he => by simpa using hn he) [sep], fun he => ?_⟩
      simp at he

theorem trimmed_spaced (s : List Char) : Trimmed (spaced s) :=
  (trimmed_intercalate fun _ hw => ⟨(word_of_mem hw).trimmed, (word_of_mem hw).1⟩).1

theorem wordsChars_append_blanks (s : List Char) {t : List Char} (h : ∀ c ∈ t, isBlank c) :
    wordsChars (s ++ t) = wordsChars s := by
  cases t with
  | nil => rw [List.append_nil]
  | cons b t =>
    rw [wordsChars_append_blank s (h b List.mem_cons_self),
      wordsChars_blanks fun c hc => h c (List.mem_cons_of_mem b hc), List.append_nil]

theorem nextWord_append {w rest : List Char} (hw : ∀ c ∈ w, isBlank c = false)
    (hrest : ∀ c ∈ rest.head?, isBlank c) : nextWord (w ++ rest) = (w, trimStartChars rest) := by
  have hw' : ∀ c ∈ w, (!isBlank c) = true := by simpa using hw
  rw [nextWord, List.takeWhile_append_of_pos hw', List.dropWhile_append_of_pos hw']
  cases rest with
  | nil => simp
  | cons c rest =>
    have hc : isBlank c := hrest c rfl
    simp [hc]

theorem trimStartChars_append {b s : List Char} (hb : ∀ c ∈ b, isBlank c)
    (hs : ∀ c ∈ s.head?, isBlank c = false) : trimStartChars (b ++ s) = s := by
  rw [trimStartChars, List.dropWhile_append_of_pos hb]
  exact trimStartChars_eq s hs

theorem wordsChars_trimStartChars (s : List Char) : wordsChars (trimStartChars s) = wordsChars s := by
  induction s with
  | nil => rfl
  | cons c s ih =>
    by_cases hc : isBlank c
    · rw [wordsChars_cons_blank hc, ← ih, trimStartChars, List.dropWhile_cons_of_pos hc]
      rfl
    · rw [trimStartChars, List.dropWhile_cons_of_neg hc]

theorem wordsChars_nextWord {c : Char} (hc : isBlank c = false) (s : List Char) :
    wordsChars (c :: s) = (nextWord (c :: s)).1 :: wordsChars (nextWord (c :: s)).2 := by
  have hword : Word ((c :: s).takeWhile (!isBlank ·)) := by
    constructor
    · simp [hc]
    · intro d hd
      simpa using List.all_eq_true.1 List.all_takeWhile d hd
  have hrest := List.head?_dropWhile_not (!isBlank ·) (c :: s)
  have hsplit := List.takeWhile_append_dropWhile (p := (!isBlank ·)) (l := c :: s)
  rw [nextWord]
  dsimp only
  generalize (c :: s).takeWhile (!isBlank ·) = w at *
  generalize (c :: s).dropWhile (!isBlank ·) = r at *
  rw [← hsplit, wordsChars_trimStartChars]
  cases r with
  | nil => rw [List.append_nil, wordsChars_word hword]; rfl
  | cons b r =>
    have hb : isBlank b := by simpa using hrest
    rw [wordsChars_append_blank _ hb, wordsChars_word hword, wordsChars_cons_blank hb]
    rfl

/-! Words up to a limit. -/

theorem take_wordsUpTo (n : Nat) (s : List Char) : (wordsUpTo n s).take n = (wordsChars s).take n := by
  induction n generalizing s with
  | zero => rfl
  | succ n ih =>
    have hfirst := first_dropWhile s
    rw [← wordsChars_trimStartChars s, wordsUpTo]
    rw [← trimStartChars] at hfirst
    cases ht : trimStartChars s with
    | nil => rfl
    | cons c r =>
      rw [ht] at hfirst
      rw [wordsChars_nextWord (hfirst c rfl)]
      dsimp only
      rw [List.take_succ_cons, List.take_succ_cons, ih]

/-- Both ways to cut a text give the same first two words, if there are two. -/
theorem wordsUpTo_two_iff {s w v : List Char} :
    (∃ r, wordsUpTo 2 s = w :: v :: r) ↔ ∃ ws, wordsChars s = w :: v :: ws := by
  have htake : ∀ l : List (List Char), (∃ r, l = w :: v :: r) ↔ l.take 2 = [w, v] := by
    intro l
    rcases l with _ | ⟨x, _ | ⟨y, l⟩⟩ <;> simp
  rw [htake, htake, take_wordsUpTo]

theorem wordsUpTo_word {w s : List Char} {b : Char} (hw : Word w) (hb : isBlank b)
    (hs : ∀ c ∈ s.head?, isBlank c = false) (n : Nat) : wordsUpTo (n + 1) (w ++ b :: s) = w :: wordsUpTo n s := by
  obtain ⟨c, w', rfl⟩ := List.exists_cons_of_ne_nil hw.1
  have hnext : nextWord (c :: w' ++ b :: s) = (c :: w', s) := by
    rw [nextWord_append hw.2 (by simpa using hb)]
    exact congrArg _ (trimStartChars_append (b := [b]) (by simpa using hb) hs)
  have htrim : trimStartChars (c :: w' ++ b :: s) = c :: w' ++ b :: s :=
    trimStartChars_eq _ (by simpa using hw.2 c List.mem_cons_self)
  rw [wordsUpTo, htrim]
  dsimp only [List.cons_append] at hnext ⊢
  rw [hnext]

/-! Cuts at a separator. -/

theorem splitChars_eq_splitOn (sep : Char) (s : List Char) : splitChars sep s = s.splitOn sep := by
  induction s with
  | nil => rfl
  | cons c s ih =>
    rw [splitChars, List.splitOn_cons_eq_if_modifyHead, ih]
    cases hs : s.splitOn sep with
    | nil => exact absurd hs (List.splitOn_ne_nil sep s)
    | cons l ls => simp [pushLine]

theorem split_intercalate {names : List String} (h : ∀ n ∈ names, ',' ∉ n.toList)
    (hne : names ≠ []) : split ',' (",".intercalate names) = names := by
  have hl : (",".intercalate names).toList = [','].intercalate (names.map String.toList) := by
    simp
  rw [split, splitChars_eq_splitOn, hl, List.splitOn_intercalate _ (by simpa using h) (by simpa using hne)]
  simp [Function.comp_def]

theorem split_ne_nil (sep : Char) (s : String) : split sep s ≠ [] := by
  simp [split, splitChars_eq_splitOn]

theorem mem_of_mem_splitChars {sep : Char} {s l : List Char} (h : l ∈ splitChars sep s) :
    ∀ c ∈ l, c ∈ s ∧ c ≠ sep := by
  induction s generalizing l with
  | nil =>
    obtain rfl := List.mem_singleton.1 h
    simp
  | cons d s ih =>
    have hlater : ∀ l ∈ splitChars sep s, ∀ c ∈ l, c ∈ d :: s ∧ c ≠ sep := fun l hl c hc =>
      (ih hl c hc).imp_left (List.mem_cons_of_mem d)
    rw [splitChars] at h
    split at h
    · rcases List.mem_cons.1 h with rfl | h
      · simp
      · exact hlater l h
    · next hd =>
      unfold pushLine at h
      split at h
      · obtain rfl := List.mem_singleton.1 h
        simpa using hd
      · next m ms hm =>
        rw [hm] at hlater
        rcases List.mem_cons.1 h with rfl | h
        · intro c hc
          rcases List.mem_cons.1 hc with rfl | hc
          · exact ⟨List.mem_cons_self, hd⟩
          · exact hlater m List.mem_cons_self c hc
        · exact hlater l (List.mem_cons_of_mem m h)

/-- The pieces of a text have no other characters than the text, and not the separator. -/
theorem mem_of_mem_split {sep : Char} {s n : String} (h : n ∈ split sep s) :
    ∀ c ∈ n.toList, c ∈ s.toList ∧ c ≠ sep := by
  obtain ⟨l, hl, rfl⟩ := List.mem_map.1 h
  rw [String.toList_ofList]
  exact mem_of_mem_splitChars hl

theorem mem_of_mem_trimChars {s : List Char} {c : Char} (h : c ∈ trimChars s) : c ∈ s := by
  have hp := trimEndChars_prefix (trimStartChars s)
  exact (List.dropWhile_suffix _).subset (hp.subset h)

theorem mem_of_mem_trim {s : String} {c : Char} (h : c ∈ (trim s).toList) : c ∈ s.toList := by
  rw [trim, String.toList_ofList] at h
  exact mem_of_mem_trimChars h

end Macros.Text
