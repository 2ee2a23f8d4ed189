import Macros.Proofs.Ini.Changed

/-!
What becomes of an option that has been set when the file is read again. A reader passes over the lines that
begin a comment, also among those of a value, and it is all the same to it whether they are there; so an option
is kept exactly when no line of its value below the first begins a comment.
-/

namespace Macros

namespace Ini

open Text

variable {f g : Ini} {sect key : String}

theorem trimmed_iff {s : List Char} : Trimmed s ↔ trimChars s = s :=
  ⟨trimChars_eq, fun h => h ▸ trimmed_trimChars s⟩

instance : DecidablePred OneLine := fun s =>
  decidable_of_iff (s.all fun c => c != '\n' && c != '\r') (by simp [OneLine])

instance : DecidablePred Signed
  | [] => isFalse (by simp [Signed])
  | c :: s => decidable_of_iff (c = '#' ∨ c = ';') (by simp [Signed])

instance : DecidablePred FitsKey := fun k =>
  decidable_of_iff (k ≠ [] ∧ trimChars k = k ∧ OneLine k ∧ lowerChars k = k ∧
      (k.all fun c => !isDelimiter c) ∧ ¬Signed k)
    ⟨fun ⟨h1, h2, h3, h4, h5, h6⟩ => ⟨h1, trimmed_iff.2 h2, h3, h4, by simpa using h5, h6⟩,
      fun ⟨h1, h2, h3, h4, h5, h6⟩ => ⟨h1, trimmed_iff.1 h2, h3, h4, by simpa using h5, h6⟩⟩

instance : DecidablePred FitsSection := fun n =>
  decidable_of_iff (n ≠ defaultSection ∧ n.toList ≠ [] ∧ OneLine n.toList)
    ⟨fun ⟨h1, h2, h3⟩ => ⟨h1, h2, h3⟩, fun ⟨h1, h2, h3⟩ => ⟨h1, h2, h3⟩⟩

/-! Lines that are passed over. -/

/-- A line that the reader passes over. -/
def silent (line : List Char) : Bool := decide (Signed (trimChars line))

theorem step_silent {line : List Char} (h : silent line) (r : Reader) : r.step line = .ok r := by
  obtain ⟨c, hc, hs⟩ := of_decide_eq_true h
  have hk : lineKind line = .comment := by
    unfold lineKind
    split
    · next hn => simp [hn] at hc
    · next d s hd =>
      rw [hd] at hc
      obtain rfl : d = c := by simpa using hc
      simp [hs]
  rw [Reader.step, hk]

theorem steps_silent (ls : List (List Char)) (r : Reader) :
    ls.foldlM Reader.step r = (ls.filter (!silent ·)).foldlM Reader.step r := by
  induction ls generalizing r with
  | nil => rfl
  | cons l ls ih =>
    rw [List.foldlM_cons]
    by_cases hl : silent l
    · rw [step_silent hl, List.filter_cons_of_neg (by simp [hl])]
      exact ih r
    · rw [List.filter_cons_of_pos (by simp [hl]), List.foldlM_cons]
      exact bind_congr fun q => ih q

/-- A file reads like any other file with the same lines, but for those that are passed over. -/
theorem read_silent (hf : f.Lined) (hg : g.Fits)
    (h : f.writtenLines.filter (!silent ·) = g.writtenLines.filter (!silent ·)) : read f.write = .ok g := by
  rw [← read_write hg, read, read, fileLines_write hf, fileLines_write hg.lined, steps_silent, h,
    ← steps_silent]

/-! The lines of a value. -/

/-- What the lines of a value come to when they are read again: the first stands behind the key, and of the others
those are left that begin no comment. -/
def heard : List String → List String
  | [] => []
  | l :: ls => l :: ls.filter fun m => !decide (Signed m.toList)

/-- A line of an option: not empty, and without blanks at its ends. -/
structure OptionLine (l : String) : Prop where
  ne : l ≠ ""
  trimmed : trim l = l
  whole : OneLine l.toList

instance : DecidablePred OptionLine := fun l =>
  decidable_of_iff (l ≠ "" ∧ trim l = l ∧ OneLine l.toList)
    ⟨fun ⟨h1, h2, h3⟩ => ⟨h1, h2, h3⟩, fun ⟨h1, h2, h3⟩ => ⟨h1, h2, h3⟩⟩

theorem OptionLine.trimmed_toList {l : String} (h : OptionLine l) : Trimmed l.toList :=
  h.trimmed ▸ trimmed_trim l

theorem splitChars_option {ls : List String} (hn : ls ≠ []) (h : ∀ l ∈ ls, OptionLine l) :
    splitChars '\n' ("\n".intercalate ls).toList = ls.map String.toList := by
  have hl : ("\n".intercalate ls).toList = ['\n'].intercalate (ls.map String.toList) := by simp
  rw [hl, splitChars_eq_splitOn]
  refine List.splitOn_intercalate _ (List.forall_mem_map.2 fun l hm hc => ?_) (by simpa using hn)
  exact ((h l hm).whole _ hc).1 rfl

theorem heard_subset (ls : List String) : heard ls ⊆ ls := by
  cases ls with
  | nil => exact fun _ h => h
  | cons l ls => exact List.cons_subset_cons l (List.filter_subset_self _)

theorem heard_ne_nil {ls : List String} (h : ls ≠ []) : heard ls ≠ [] := by
  cases ls with
  | nil => exact absurd rfl h
  | cons l ls => exact List.cons_ne_nil _ _

theorem heard_eq_iff (ls : List String) : heard ls = ls ↔ ∀ l ∈ ls.tail, ¬Signed l.toList := by
  cases ls with
  | nil => simp [heard]
  | cons l ls => simp [heard, List.filter_eq_self]

/-- Different lines are different values. -/
theorem intercalate_heard_iff {ls : List String} (hn : ls ≠ []) (h : ∀ l ∈ ls, OptionLine l) :
    "\n".intercalate (heard ls) = "\n".intercalate ls ↔ ∀ l ∈ ls.tail, ¬Signed l.toList := by
  rw [← heard_eq_iff]
  refine ⟨fun he => ?_, fun he => by rw [he]⟩
  have hs : (heard ls).map String.toList = ls.map String.toList := by
    rw [← splitChars_option hn h, ← he,
      splitChars_option (heard_ne_nil hn) fun l hl => h l (heard_subset ls hl)]
  exact List.map_injective_iff.2 (fun _ _ => String.toList_inj.1) hs

theorem entryLines_option (k : String) {l : String} {ls : List String} (h : ∀ m ∈ l :: ls, OptionLine m) :
    entryLines (k, "\n".intercalate (l :: ls)) =
      (k.toList ++ ' ' :: '=' :: ' ' :: l.toList) :: ls.map ('\t' :: ·.toList) := by
  rw [entryLines, splitChars_option (List.cons_ne_nil l ls) h]
  simp [Function.comp_def]

/-- The lines of an entry that are not passed over are those of what is heard of its value. -/
theorem entryLines_heard (k : String) {ls : List String} (hn : ls ≠ []) (h : ∀ l ∈ ls, OptionLine l) :
    (entryLines (k, "\n".intercalate ls)).filter (!silent ·) =
      (entryLines (k, "\n".intercalate (heard ls))).filter (!silent ·) := by
  obtain ⟨l, ls, rfl⟩ := List.exists_cons_of_ne_nil hn
  have hs : ∀ m ∈ ls, silent ('\t' :: m.toList) = decide (Signed m.toList) := fun m hm => by
    rw [silent, trimChars_tab (h m (List.mem_cons_of_mem l hm)).trimmed_toList]
  have hl : (ls.map ('\t' :: ·.toList)).filter (!silent ·) =
      ((ls.filter fun m => !decide (Signed m.toList)).map ('\t' :: ·.toList)).filter (!silent ·) := by
    rw [List.filter_map, List.filter_map, List.filter_filter]
    congr 1
    refine List.filter_congr fun m hm => ?_
    simp [hs m hm]
  rw [entryLines_option k h, heard,
    entryLines_option k fun m hm => h m (heard_subset (l :: ls) hm), List.filter_cons, List.filter_cons, hl]

/-- Values with the same lines to hear are written with the same lines to hear. -/
theorem writtenLines_put {p : List Char → Bool} {v w : String}
    (h : (entryLines (keyOf key, v)).filter p = (entryLines (keyOf key, w)).filter p) (f : Ini) :
    (f.put sect key v).writtenLines.filter p = (f.put sect key w).writtenLines.filter p := by
  have hs : ∀ t : Table String, (sectionLines (sect, t.put (keyOf key) v)).filter p =
      (sectionLines (sect, t.put (keyOf key) w)).filter p := fun t => by
    simp only [sectionLines, List.filter_append, List.filter_cons, List.filter_flatMap,
      Table.flatMap_put (g := fun e => (entryLines e).filter p) h t]
  simp only [writtenLines, put, List.filter_append, List.filter_flatMap]
  exact congrArg (_ ++ ·) (Table.flatMap_put (g := fun e => (sectionLines e).filter p) (hs _) _)

/-- What is heard of a value fits a file. -/
theorem fitsText_heard {k : List Char} (hk : k.head? ≠ some '[') {ls : List String} (hn : ls ≠ [])
    (h : ∀ l ∈ ls, OptionLine l) : FitsText k ("\n".intercalate (heard ls)).toList := by
  obtain ⟨l, ls, rfl⟩ := List.exists_cons_of_ne_nil hn
  have hl : ("\n".intercalate (heard (l :: ls))).toList =
      ['\n'].intercalate (l.toList :: (ls.filter fun m => !decide (Signed m.toList)).map String.toList) := by
    simp [heard]
  have hm := h l List.mem_cons_self
  rw [hl]
  refine .of_lines ⟨hm.trimmed_toList, hm.whole, fun hb => absurd hb hk⟩
    (List.forall_mem_map.2 fun m hm => ?_) fun c hc => ?_
  · obtain ⟨hm, hs⟩ := List.mem_filter.1 hm
    have hm := h m (List.mem_cons_of_mem l hm)
    exact ⟨hm.trimmed_toList, hm.whole, by simpa using hs⟩
  · rw [← List.map_cons] at hc
    obtain ⟨m, hm, rfl⟩ := List.mem_map.1 hc
    simpa using (h m (heard_subset (l :: ls) hm)).ne

end Ini

namespace Settings

/-- The options that are read by their names; the kinds of failure have theirs besides. -/
def namedOptions : List (String × String) :=
  [("GENERAL", "macros_dir"), ("TIMING", "max_timeout_retries"), ("TIMING", "default_wait_budget"),
    ("CRAFT_LOOP", "enabled"), ("CRAFT_LOOP", "template"), ("LUA", "require_paths"),
    ("NOTIFY", "normal_channel"), ("NOTIFY", "error_channel"), ("NOTIFY", "loop_echo")]

/-- The options that are read. A name for a command can be any key that a line can begin with. -/
inductive Reads : String → String → Prop
  | named {sect key : String} (h : (sect, key) ∈ namedOptions) : Reads sect key
  | stop {kind : FailureKind} {key : String} (h : stopKey? kind = some key) : Reads "STOP_ON" key
  | command {key : String} (fits : Ini.FitsKey (Ini.keyOf key).toList)
      (headless : (Ini.keyOf key).toList.head? ≠ some '[') : Reads "COMMANDS" key

/-- What a line of the file needs to be read as the option again. -/
theorem Reads.fits {sect key : String} (h : Reads sect key) : Ini.FitsSection sect ∧
    Ini.FitsKey (Ini.keyOf key).toList ∧ (Ini.keyOf key).toList.head? ≠ some '[' := by
  cases h with
  | named h =>
    have hall : ∀ p ∈ namedOptions, Ini.FitsSection p.1 ∧ Ini.FitsKey (Ini.keyOf p.2).toList ∧
        (Ini.keyOf p.2).toList.head? ≠ some '[' := by decide +kernel
    exact hall _ h
  | @stop kind _ h =>
    have hall : ∀ k ∈ (stopKey? kind), Ini.FitsSection "STOP_ON" ∧ Ini.FitsKey (Ini.keyOf k).toList ∧
        (Ini.keyOf k).toList.head? ≠ some '[' := by cases kind <;> decide +kernel
    exact hall _ h
  | command fits headless => exact ⟨by decide +kernel, fits, headless⟩

/-- An option that has been set to a text of lines is, when the file is read again, what is heard of the text. -/
theorem set_heard {s : Settings} (h : s.ini.Fits) {sect key : String} (hr : Reads sect key)
    {ls : List String} (hn : ls ≠ []) (hls : ∀ l ∈ ls, Ini.OptionLine l) :
    ∃ s', s.set sect key ("\n".intercalate ls) = .ok s' ∧
      s'.reload = .ok { s' with ini := s.ini.put sect key ("\n".intercalate (Ini.heard ls)) } := by
  obtain ⟨hs, hk, hb⟩ := hr.fits
  refine ⟨_, set_eq hs s key _, ?_⟩
  have hreturn : '\r' ∉ ("\n".intercalate ls).toList := by
    have hl : ("\n".intercalate ls).toList = ['\n'].intercalate (ls.map String.toList) := by simp
    rw [hl]
    exact Ini.noReturn_intercalate (List.forall_mem_map.2 fun l hl => (hls l hl).whole)
  have hread := Ini.read_silent (h.put_lined hs.2.oneLine hk.oneLine hreturn)
    (h.put hs hk (Ini.fitsText_heard hb hn hls)) (Ini.writtenLines_put (Ini.entryLines_heard _ hn hls) s.ini)
  rw [reload, save, load, hread]
  rfl

/-- An option is kept over a restart exactly when no line of its value after the first begins a comment. Every
other option that had a value keeps it, and one that had none gets none but what shows through from `DEFAULT`
in a section that is new. -/
theorem set_kept_iff {file : Option String} {s : Settings} (h : load file = .ok s) {sect key : String}
    (hr : Reads sect key) {ls : List String} (hn : ls ≠ []) (hls : ∀ l ∈ ls, Ini.OptionLine l) :
    ∃ s' s'', s.set sect key ("\n".intercalate ls) = .ok s' ∧ s'.reload = .ok s'' ∧
      (s''.get? sect key = some ("\n".intercalate ls) ↔ ∀ l ∈ ls.tail, ¬Ini.Signed l.toList) ∧
      ∀ sect' key', (sect' = sect → Ini.keyOf key' ≠ Ini.keyOf key) →
        s''.get? sect' key' = (s.get? sect' key').or
          (if sect' = sect then s.ini.defaults.get? (Ini.keyOf key') else none) := by
  obtain ⟨s', hset, hload⟩ := set_heard (load_fits h) hr hn hls
  refine ⟨s', _, hset, hload, ?_, fun sect' key' hne => ?_⟩
  · rw [get?, Ini.get?_put, if_pos ⟨rfl, rfl⟩, Option.some_inj]
    exact Ini.intercalate_heard_iff hn hls
  · rw [get?, Ini.get?_put, if_neg fun he => hne he.1 he.2]
    rfl

/-- A template with a comment in it. -/
def notedTemplate : List String := [CraftLoop.macroKey, "# once more", "/loop " ++ CraftLoop.countKey]

theorem oddities_set : Reads "CRAFT_LOOP" "template" ∧ notedTemplate ≠ [] ∧
    (∀ l ∈ notedTemplate, Ini.OptionLine l) ∧
    ∃ s s' s'', load (some oddities) = .ok s ∧
      s.set "CRAFT_LOOP" "template" ("\n".intercalate notedTemplate) = .ok s' ∧ s'.reload = .ok s'' ∧
      (s''.get? "CRAFT_LOOP" "template" = some ("\n".intercalate notedTemplate) ↔
        ∀ l ∈ notedTemplate.tail, ¬Ini.Signed l.toList) ∧
      ∀ sect' key', (sect' = "CRAFT_LOOP" → Ini.keyOf key' ≠ Ini.keyOf "template") →
        s''.get? sect' key' = (s.get? sect' key').or
          (if sect' = "CRAFT_LOOP" then s.ini.defaults.get? (Ini.keyOf key') else none) := by
  have hr : Reads "CRAFT_LOOP" "template" := .named (by decide)
  have hn : notedTemplate ≠ [] := by decide
  have hls : ∀ l ∈ notedTemplate, Ini.OptionLine l := by decide +kernel
  obtain ⟨s', s'', h⟩ := set_kept_iff oddities_load hr hn hls
  exact ⟨hr, hn, hls, _, s', s'', oddities_load, h⟩

/-- In memory the template is as it was set, until the file is read again. -/
theorem note_lost : Reads "CRAFT_LOOP" "template" ∧ (∀ l ∈ notedTemplate, Ini.OptionLine l) ∧
    ∃ s' s'', fresh.set "CRAFT_LOOP" "template" ("\n".intercalate notedTemplate) = .ok s' ∧
      s'.reload = .ok s'' ∧
      s'.get? "CRAFT_LOOP" "template" = some ("\n".intercalate notedTemplate) ∧
      s''.get? "CRAFT_LOOP" "template" = some CraftLoop.defaultTemplate ∧
      CraftLoop.defaultTemplate ≠ "\n".intercalate notedTemplate := by
  have hr : Reads "CRAFT_LOOP" "template" := .named (by decide)
  have hls : ∀ l ∈ notedTemplate, Ini.OptionLine l := by decide +kernel
  have h : load none = .ok fresh := rfl
  obtain ⟨s', hset, hload⟩ := set_heard (load_fits h) hr (by decide) hls
  refine ⟨hr, hls, s', _, hset, hload, ?_, ?_, by decide +kernel⟩
  · rw [set_eq (Reads.fits hr).1] at hset
    obtain rfl := Except.ok.inj hset
    decide +kernel
  · rw [get?, Ini.get?_put, if_pos ⟨rfl, rfl⟩]
    decide +kernel

end Settings

end Macros
