import Macros.Proofs.Ini.Reader
import Macros.Settings

/-!
Reading a settings file that has been written. It is read section by section, an entry takes the line of its
key and one more for every further line of its value, and each brings back what it was written for; the empty
line behind a section goes to its last value, where it is dropped with the blanks at the end.
-/

namespace Macros.Ini

open Text

/-! The lines of what is written. -/

def unlines (ls : List (List Char)) : List Char := ls.flatMap (· ++ ['\n'])

def entryLines (e : String × String) : List (List Char) :=
  match splitChars '\n' e.2.toList with
  | [] => []
  | v :: ls => (e.1.toList ++ ' ' :: '=' :: ' ' :: v) :: ls.map ('\t' :: ·)

def sectionLines (e : String × Table String) : List (List Char) :=
  ('[' :: e.1.toList ++ [']']) :: e.2.flatMap entryLines ++ [[]]

def writtenLines (f : Ini) : List (List Char) :=
  (if f.defaults.isEmpty then [] else sectionLines (defaultSection, f.defaults)) ++
    f.sections.flatMap sectionLines

theorem splitChars_ne_nil (sep : Char) (s : List Char) : splitChars sep s ≠ [] := by
  simp [splitChars_eq_splitOn]

/-- A value is written with a tab after each break. -/
theorem indented {s l : List Char} {ls : List (List Char)} (h : splitChars '\n' s = l :: ls) :
    (s.flatMap fun c => if c = '\n' then ['\n', '\t'] else [c]) = l ++ ls.flatMap ('\n' :: '\t' :: ·) := by
  induction s generalizing l ls with
  | nil =>
    obtain ⟨rfl, rfl⟩ := List.cons.inj h
    rfl
  | cons c s ih =>
    obtain ⟨m, ms, hm⟩ := List.exists_cons_of_ne_nil (splitChars_ne_nil '\n' s)
    rw [splitChars, hm] at h
    rw [List.flatMap_cons, ih hm]
    split at h
    · next hc =>
      obtain ⟨rfl, rfl⟩ := List.cons.inj h
      simp [hc]
    · next hc =>
      obtain ⟨rfl, rfl⟩ := List.cons.inj h
      simp [hc]

theorem writeEntry_eq (e : String × String) : writeEntry e = unlines (entryLines e) := by
  obtain ⟨l, ls, hl⟩ := List.exists_cons_of_ne_nil (splitChars_ne_nil '\n' e.2.toList)
  have hv : writeValue e.2 ++ ['\n'] = l ++ '\n' :: unlines (ls.map ('\t' :: ·)) := by
    have hs : ∀ ms : List (List Char), ms.flatMap ('\n' :: '\t' :: ·) ++ ['\n'] =
        '\n' :: unlines (ms.map ('\t' :: ·)) := fun ms => by
      induction ms with
      | nil => rfl
      | cons m ms ih =>
        rw [List.flatMap_cons, List.append_assoc, ih]
        simp [unlines]
    rw [writeValue, indented hl, List.append_assoc, hs]
  rw [writeEntry, List.append_assoc, List.cons_append, List.cons_append, List.cons_append, hv, entryLines, hl]
  simp [unlines]

theorem toList_write (f : Ini) : f.write.toList = unlines f.writtenLines := by
  have hu : ∀ ls ms, unlines (ls ++ ms) = unlines ls ++ unlines ms := fun ls ms => List.flatMap_append
  have he : ∀ t : Table String, t.flatMap writeEntry = unlines (t.flatMap entryLines) := fun t => by
    rw [unlines, List.flatMap_assoc]
    exact List.flatMap_congr fun e _ => writeEntry_eq e
  have hs : ∀ e : String × Table String, writeSection e.1 e.2 = unlines (sectionLines e) := fun e => by
    rw [writeSection, he, sectionLines, hu]
    simp [unlines]
  rw [write, String.toList_ofList, writtenLines, hu, unlines, unlines, List.flatMap_assoc]
  congr 1
  · split
    · rfl
    · exact hs (defaultSection, f.defaults)
  · exact List.flatMap_congr fun e _ => hs e

theorem splitChars_break {sep : Char} {l : List Char} (h : sep ∉ l) (s : List Char) :
    splitChars sep (l ++ sep :: s) = l :: splitChars sep s := by
  induction l with
  | nil => exact if_pos rfl
  | cons c l ih =>
    rw [List.mem_cons, not_or] at h
    rw [List.cons_append, splitChars, if_neg (Ne.symm h.1), ih h.2]
    rfl

theorem unifyBreaksChars_eq {s : List Char} (h : '\r' ∉ s) : unifyBreaksChars s = s := by
  fun_induction unifyBreaksChars s with
  | case1 => rfl
  | case2 => simp at h
  | case3 c s _ ih =>
    rw [List.mem_cons, not_or] at h
    rw [if_neg (Ne.symm h.1), ih h.2]

theorem fileLines_unlines {ls : List (List Char)} (h : ∀ l ∈ ls, OneLine l) :
    fileLines (unlines ls) = ls := by
  have hr : '\r' ∉ unlines ls := by
    intro hm
    obtain ⟨l, hl, hc⟩ := List.mem_flatMap.1 hm
    rcases List.mem_append.1 hc with hc | hc
    · exact (h l hl _ hc).2 rfl
    · simp at hc
  have hs : splitChars '\n' (unlines ls) = ls ++ [[]] := by
    clear hr
    induction ls with
    | nil => rfl
    | cons l ls ih =>
      obtain ⟨hl, hls⟩ := List.forall_mem_cons.1 h
      rw [unlines, List.flatMap_cons, List.append_assoc, List.singleton_append,
        splitChars_break (fun hm => (hl _ hm).1 rfl)]
      exact congrArg (l :: ·) (ih hls)
  rw [fileLines, unifyBreaksChars_eq hr, hs]
  simp

/-! A single line, read again. -/

theorem trimChars_eq {s : List Char} (h : Trimmed s) : trimChars s = s := by
  rw [trimChars, trimStartChars_eq _ h.first, trimEndChars_eq _ h.last]

theorem trimChars_tab {l : List Char} (h : Trimmed l) : trimChars ('\t' :: l) = l := by
  have hs : trimStartChars ('\t' :: l) = trimStartChars l := by
    rw [trimStartChars, List.dropWhile_cons_of_pos (by decide), trimStartChars]
  rw [trimChars, hs, ← trimChars, trimChars_eq h]

theorem lineKind_of_trim {line body : List Char} (h : trimChars line = body) (hn : body ≠ [])
    (hs : ¬Signed body) : lineKind line = .content (line.takeWhile isBlank).length body := by
  obtain ⟨c, b, rfl⟩ := List.exists_cons_of_ne_nil hn
  have hc : ¬(c = '#' ∨ c = ';') := fun hc => hs ⟨c, rfl, hc⟩
  simp [lineKind, h, hc]

theorem takeWhile_blank {s : List Char} (h : ∀ c ∈ s.head?, isBlank c = false) :
    s.takeWhile isBlank = [] := by
  cases s with
  | nil => rfl
  | cons c s => simp [h c rfl]

/-- The line of a key, without blanks at its ends. -/
theorem entry_line {k v : List Char} (hk : FitsKey k) (hv : FitsFirst k v) :
    ∃ rest, trimChars (k ++ ' ' :: '=' :: ' ' :: v) = k ++ ' ' :: '=' :: rest ∧ trimChars rest = v ∧
      ∀ c ∈ rest, c = ' ' ∨ c ∈ v := by
  cases v with
  | nil =>
    refine ⟨[], ?_, rfl, nofun⟩
    have ht : Trimmed (k ++ [' ', '=']) := by
      simpa using hk.trimmed.between hk.ne (t := ['=']) ⟨by decide, by decide⟩ (by simp) [' ']
    have hl : k ++ [' ', '=', ' '] = k ++ [' ', '='] ++ [' '] := by simp
    have hs : trimStartChars (k ++ [' ', '=', ' ']) = k ++ [' ', '=', ' '] := by
      refine trimStartChars_eq _ ?_
      rw [List.head?_append, Option.or_of_isSome (List.isSome_head?.2 hk.ne)]
      exact hk.trimmed.first
    rw [trimChars, hs, hl, trimEndChars_blank _ (by decide), trimEndChars_eq _ ht.last]
  | cons d w =>
    have ht : Trimmed (k ++ ' ' :: '=' :: ' ' :: d :: w) := by
      simpa using hk.trimmed.between hk.ne hv.trimmed (by simp) [' ', '=', ' ']
    refine ⟨' ' :: d :: w, trimChars_eq ht, ?_, by simp⟩
    have hs : trimStartChars (' ' :: d :: w) = trimStartChars (d :: w) :=
      List.dropWhile_cons_of_pos (by decide)
    rw [trimChars, hs, ← trimChars, trimChars_eq hv.trimmed]

theorem entry?_line {k v rest : List Char} (hk : FitsKey k) (hr : trimChars rest = v) :
    entry? (k ++ ' ' :: '=' :: rest) = some (String.ofList k, String.ofList v) := by
  have hk' : ∀ c ∈ k, (!isDelimiter c) = true := fun c hc => by simp [hk.whole c hc]
  have h1 : (!isDelimiter ' ') = true := by decide
  have h2 : (!isDelimiter '=') = false := by decide
  have ht : trimEndChars (k ++ [' ']) = k := by
    rw [trimEndChars_blank _ (by decide), trimEndChars_eq _ hk.trimmed.last]
  rw [ entry?, List.dropWhile_append_of_pos hk', List.takeWhile_append_of_pos hk']
  simp [h1, h2, ht, hr]

theorem header?_line {k v rest : List Char} (hk : FitsKey k) (hv : FitsFirst k v)
    (hr : ∀ c ∈ rest, c = ' ' ∨ c ∈ v) : header? (k ++ ' ' :: '=' :: rest) = none := by
  rw [header?_none_iff]
  intro hh hm
  obtain ⟨a, b, rfl⟩ := List.exists_cons_of_ne_nil hk.ne
  have hb := hv.headless (by simpa using hh)
  rw [List.drop_append, List.mem_append] at hm
  refine hb (List.mem_append.2 (hm.imp_right fun hm => ?_))
  have hm := List.mem_of_mem_drop hm
  simp only [List.mem_cons] at hm
  rcases hm with hm | hm | hm
  · exact absurd hm (by decide)
  · exact absurd hm (by decide)
  · exact (hr _ hm).resolve_left (by decide)

theorem header?_bracketed {n : List Char} (h : n ≠ []) :
    header? ('[' :: n ++ [']']) = some (String.ofList n) := by
  have hd : ((n ++ [']']).reverse.dropWhile (· != ']')).drop 1 = n.reverse := by simp
  rw [List.cons_append, header?, hd]
  split
  · next hn => exact absurd (List.reverse_eq_nil_iff.1 hn) h
  · rw [List.reverse_reverse]

theorem noReturn_intercalate {ls : List (List Char)} (h : ∀ l ∈ ls, OneLine l) :
    '\r' ∉ ['\n'].intercalate ls := by
  cases ls with
  | nil => simp
  | cons l ls =>
    rw [intercalate_eq_flatMap, List.mem_append, not_or]
    refine ⟨fun hc => (h l List.mem_cons_self _ hc).2 rfl, fun hm => ?_⟩
    obtain ⟨m, hm, hc⟩ := List.mem_flatMap.1 hm
    rcases List.mem_cons.1 hc with hc | hc
    · exact absurd hc (by decide)
    · exact (h m (List.mem_cons_of_mem l hm) _ hc).2 rfl

theorem FitsText.noReturn {k v : List Char} (h : FitsText k v) : '\r' ∉ v := by
  obtain ⟨⟨_, ⟨hfirst, hlater⟩, rfl⟩, -⟩ := h
  exact noReturn_intercalate (List.forall_mem_cons.2 ⟨hfirst.oneLine, fun l hl => (hlater l hl).oneLine⟩)

namespace Reader

variable {r r' : Reader} {s k : String}

theorem step_content (hi : r.indent = 0) {line body : List Char} (hl : lineKind line = .content 0 body) :
    r.step line =
      match header? body with
      | some name => r.openSection name
      | none =>
        match r.sect with
        | none => .error .missingHeader
        | some s =>
          match entry? body with
          | some (key, value) => r.addEntry s key value
          | none => .ok { r with bad := true } := by
  have hr : ({ r with indent := 0 } : Reader) = r := by rw [← hi]
  unfold step
  rw [hl]
  dsimp only
  rw [hr, hi]
  cases r.open? <;> rfl

theorem step_later (hi : r.indent = 0) (ho : r.open? = some (s, k)) {l : List Char} (hl : FitsLater l) :
    r.step ('\t' :: l) = .ok (r.goOn s k (String.ofList l)) := by
  have ht : trimChars ('\t' :: l) = l := trimChars_tab hl.trimmed
  unfold step
  by_cases hn : l = []
  · subst hn
    rw [show lineKind ['\t'] = .blank from rfl, ho]
  · have hw : ('\t' :: l).takeWhile isBlank = ['\t'] := by
      rw [List.takeWhile_cons_of_pos (by decide), takeWhile_blank hl.trimmed.first]
    rw [lineKind_of_trim ht hn hl.unsigned, hw]
    dsimp only
    rw [ho, hi]
    rfl

/-- The reader stands at the margin, and all was well so far. -/
structure Margin (r : Reader) : Prop where
  sound : r.Sound
  good : r.bad = false
  indent : r.indent = 0

structure Within (r : Reader) (s : String) : Prop extends r.Margin where
  sect : r.sect = some s

/-- The section holds the entries now, and the others hold what they did. -/
structure Fills (r : Reader) (s : String) (t : Table (List String)) (r' : Reader) : Prop where
  names : r'.sections.keys = r.sections.keys
  table : ∀ s', r'.table s' = if s' = s then t else r.table s'

theorem Within.open? (h : r.Within s) (hk : r.key = some k) (hn : k ≠ "") : r.open? = some (s, k) := by
  simp [Reader.open?, h.sect, hk, hn]

theorem fills_update (hs : s ≠ defaultSection → s ∈ r.sections.keys)
    (f : Table (List String) → Table (List String)) : Fills r s (f (r.table s)) (r.update s f) :=
  ⟨keys_update hs f, table_update r s f⟩

theorem Within.entry (h : r.Within s) {v : List Char} (hk : FitsKey k.toList) (hv : FitsFirst k.toList v)
    (hn : k ∉ (r.table s).keys) :
    ∃ r', r.step (k.toList ++ ' ' :: '=' :: ' ' :: v) = .ok r' ∧ r'.Within s ∧ r'.key = some k ∧
      Fills r s (r.table s ++ [(k, [String.ofList v])]) r' := by
  obtain ⟨rest, hb, ht, hr⟩ := entry_line hk hv
  have hline : OneLine (k.toList ++ ' ' :: '=' :: ' ' :: v) := by
    intro c hc
    simp only [List.mem_append, List.mem_cons] at hc
    rcases hc with hc | rfl | rfl | rfl | hc
    · exact hk.oneLine c hc
    · decide
    · decide
    · decide
    · exact hv.oneLine c hc
  obtain ⟨a, b, hab⟩ := List.exists_cons_of_ne_nil hk.ne
  have hw : (k.toList ++ ' ' :: '=' :: ' ' :: v).takeWhile isBlank = [] :=
    takeWhile_blank (by simpa [hab] using hk.trimmed.first a (by simp [hab]))
  have hs : ¬Signed (k.toList ++ ' ' :: '=' :: rest) := fun ⟨c, hc, hx⟩ =>
    hk.unsigned ⟨c, by simpa [hab] using hc, hx⟩
  have hkey : keyOf k = k := by rw [keyOf, lower, hk.small, String.ofList_toList]
  have hseen : r.seen.contains (s, k) = false := by
    rw [Bool.eq_false_iff]
    exact fun hx => hn (h.sound.seen s k (by simpa using hx))
  have hne : k.isEmpty = false := by simpa using fun he : k = "" => hk.ne (by simp [he])
  have hst : r.step (k.toList ++ ' ' :: '=' :: ' ' :: v) = r.addEntry s k (String.ofList v) := by
    rw [step_content h.indent (by rw [lineKind_of_trim hb (by simp) hs, hw]; rfl), header?_line hk hv hr,
      entry?_line hk ht, h.sect]
    simp
  have hadd : r.addEntry s k (String.ofList v) = .ok { (r.update s fun t => t.put k [String.ofList v]) with
      key := some k, seen := (s, k) :: r.seen, bad := r.bad } := by
    simp only [addEntry, hkey, hseen, hne, Bool.or_false, Bool.false_eq_true, if_false]
  obtain ⟨h1, -, -, -, h5⟩ := update_rest r s fun t => t.put k [String.ofList v]
  have hf := fills_update (h.sound.sect s h.sect) fun t => t.put k [String.ofList v]
  rw [Table.put_new hn] at hf
  exact ⟨_, hst.trans hadd, ⟨⟨h.sound.step hline (hst.trans hadd), h.good, h5.trans h.indent⟩, h1.trans h.sect⟩,
    rfl, ⟨hf.names, hf.table⟩⟩

/-- The value of the last key goes on. -/
theorem Within.later (h : r.Within s) (hk : r.key = some k) (hne : k ≠ "")
    {t : Table (List String)} {vs : List String} (ht : r.table s = t ++ [(k, vs)]) (hn : k ∉ t.keys)
    {ls : List (List Char)} (hls : ∀ l ∈ ls, FitsLater l) :
    ∃ r', (ls.map ('\t' :: ·)).foldlM step r = .ok r' ∧ r'.Within s ∧ r'.key = some k ∧
      Fills r s (t ++ [(k, vs ++ ls.map String.ofList)]) r' := by
  induction ls generalizing r vs with
  | nil =>
    refine ⟨r, rfl, h, hk, rfl, fun s' => ?_⟩
    split
    · next he => rw [he, ht]; simp
    · rfl
  | cons l ls ih =>
    obtain ⟨hl, hls⟩ := List.forall_mem_cons.1 hls
    have ho := h.open? hk hne
    have hst := step_later h.indent ho hl
    have hf := fills_update (h.sound.sect s h.sect)
      fun t => t.put k ((t.get? k).getD [] ++ [String.ofList l])
    rw [ht, Table.get?_last hn, Table.put_last hn] at hf
    obtain ⟨h1, h2, -, h4, h5⟩ := update_rest r s fun t => t.put k ((t.get? k).getD [] ++ [String.ofList l])
    have hw : (r.goOn s k (String.ofList l)).Within s :=
      ⟨⟨h.sound.goOn ho (by simpa using hl), h4.trans h.good, h5.trans h.indent⟩, h1.trans h.sect⟩
    obtain ⟨r', hr, hw', hk', hf'⟩ := ih hw (h2.trans hk) (by rw [goOn, hf.table, if_pos rfl]) hls
    refine ⟨r', by rw [List.map_cons, List.foldlM_cons, hst]; exact hr, hw', hk',
      hf'.names.trans hf.names, fun s' => ?_⟩
    rw [hf'.table]
    split
    · simp
    · next he => rw [goOn, hf.table, if_neg he]

theorem Fills.trans {t u : Table (List String)} {q : Reader} (h : Fills r s t q) (h' : Fills q s u r') :
    Fills r s u r' where
  names := h'.names.trans h.names
  table s' := by
    rw [h'.table, h.table]
    split <;> rfl

theorem Within.steps_entry (h : r.Within s) {v : String} (hk : FitsKey k.toList)
    (hv : FitsText k.toList v.toList) (hn : k ∉ (r.table s).keys) :
    ∃ r', (entryLines (k, v)).foldlM step r = .ok r' ∧ r'.Within s ∧
      ∃ vs, join vs = v ∧ Fills r s (r.table s ++ [(k, vs)]) r' := by
  obtain ⟨⟨_, ⟨hfirst, hlater⟩, hv⟩, ht⟩ := hv
  rename_i l ls
  have hone : ∀ m ∈ l :: ls, '\n' ∉ m := by
    intro m hm hc
    rcases List.mem_cons.1 hm with rfl | hm
    · exact (hfirst.oneLine _ hc).1 rfl
    · exact ((hlater m hm).oneLine _ hc).1 rfl
  have hsplit : splitChars '\n' v.toList = l :: ls := by
    rw [splitChars_eq_splitOn, hv, List.splitOn_intercalate _ hone (List.cons_ne_nil l ls)]
  have hjoin : join ((l :: ls).map String.ofList) = v := by
    have hm : ((l :: ls).map String.ofList).map String.toList = l :: ls := by
      simp [List.map_map, Function.comp_def]
    rw [← String.toList_inj, toList_join, hm, ← hv, ht]
  obtain ⟨q, hq, hqw, hqk, hqf⟩ := h.entry hk hfirst hn
  have hne : k ≠ "" := fun he => hk.ne (by simp [he])
  obtain ⟨r', hr, hw, -, hf⟩ := hqw.later hqk hne (by rw [hqf.table, if_pos rfl]) hn hlater
  refine ⟨r', ?_, hw, _, hjoin, hqf.trans hf⟩
  rw [entryLines, hsplit]
  dsimp only
  rw [List.foldlM_cons, hq]
  exact hr

theorem Within.steps_entries (h : r.Within s) {t : Table String}
    (ht : ∀ e ∈ t, FitsKey e.1.toList ∧ FitsText e.1.toList e.2.toList)
    (hn : ((r.table s).keys ++ t.keys).Nodup) :
    ∃ r', (t.flatMap entryLines).foldlM step r = .ok r' ∧ r'.Within s ∧
      ∃ u, Table.mapValues join u = t ∧ Fills r s (r.table s ++ u) r' := by
  induction t generalizing r with
  | nil => exact ⟨r, rfl, h, [], rfl, rfl, fun s' => by split <;> simp_all⟩
  | cons e t ih =>
    obtain ⟨k, v⟩ := e
    obtain ⟨⟨hk, hv⟩, ht⟩ := List.forall_mem_cons.1 ht
    have hk' : k ∉ (r.table s).keys := fun hm => by
      exact (List.nodup_append.1 hn).2.2 k hm k (List.mem_cons_self) rfl
    obtain ⟨q, hq, hqw, vs, hvs, hqf⟩ := h.steps_entry hk hv hk'
    have hqt : q.table s = r.table s ++ [(k, vs)] := by rw [hqf.table, if_pos rfl]
    obtain ⟨r', hr, hw, u, hu, hf⟩ := ih hqw ht (by rw [hqt]; simpa [Table.keys] using hn)
    refine ⟨r', ?_, hw, (k, vs) :: u, ?_, ?_⟩
    · rw [List.flatMap_cons, List.foldlM_append, hq]
      exact hr
    · rw [← hu]
      exact congrArg (fun w => (k, w) :: Table.mapValues join u) hvs
    · rw [hqt, List.append_assoc] at hf
      exact hqf.trans hf

/-- An empty line goes to the last value, if there is one, and is dropped at its end. -/
theorem Within.step_blank (h : r.Within s) :
    ∃ r', r.step [] = .ok r' ∧ r'.Within s ∧
      ∃ u : Table (List String), u.mapValues join = (r.table s).mapValues join ∧ Fills r s u r' := by
  have hst : r.step [] = match r.open? with
      | some (s, k) => .ok (r.goOn s k "")
      | none => .ok r := rfl
  cases ho : r.open? with
  | none =>
    refine ⟨r, by rw [hst, ho], h, _, rfl, rfl, fun s' => ?_⟩
    split
    · next he => rw [he]
    · rfl
  | some p =>
    obtain ⟨s', k⟩ := p
    obtain ⟨hs, hk⟩ := open?_some ho
    obtain rfl : s = s' := Option.some.inj (h.sect.symm.trans hs)
    obtain ⟨ls, hls⟩ := Option.isSome_iff_exists.1 (Table.has_iff.2 (h.sound.key s k hs hk))
    have hf := fills_update (h.sound.sect s h.sect) fun t => t.put k ((t.get? k).getD [] ++ [""])
    obtain ⟨h1, -, -, h4, h5⟩ := update_rest r s fun t => t.put k ((t.get? k).getD [] ++ [""])
    refine ⟨r.goOn s k "", by rw [hst, ho], ⟨⟨h.sound.goOn ho (by simpa using FitsLater.nil),
      h4.trans h.good, h5.trans h.indent⟩, h1.trans h.sect⟩, _, ?_, hf⟩
    have hj : join (ls ++ [""]) = join ls := by
      rw [← String.toList_inj, toList_join, toList_join]
      cases ls with
      | nil => rfl
      | cons l ls =>
        have hi : ['\n'].intercalate (((l :: ls) ++ [""]).map String.toList) =
            ['\n'].intercalate ((l :: ls).map String.toList) ++ ['\n'] := by
          simp [intercalate_eq_flatMap]
        rw [hi, trimEndChars_blank _ (by decide)]
    rw [Table.mapValues_put, hls, Option.getD_some, hj]
    exact Table.put_self (by rw [Table.get?_mapValues, hls]; rfl)

/-! A whole section, and all of them. -/

theorem Margin.steps_section (h : r.Margin) {name : String} {t : Table String} (hn : FitsName name.toList)
    (ht : FitsTable t) (hd : r.table name = []) (hnew : name ∉ r.sections.keys) :
    ∃ r', (sectionLines (name, t)).foldlM step r = .ok r' ∧ r'.Margin ∧
      r'.sections.keys = r.sections.keys ++ (if name = defaultSection then [] else [name]) ∧
      ∀ s, (r'.table s).mapValues join = if s = name then t else (r.table s).mapValues join := by
  have hl : OneLine ('[' :: name.toList ++ [']']) := by
    intro c hc
    simp only [List.mem_append, List.mem_cons, List.not_mem_nil, or_false] at hc
    rcases hc with (rfl | hc) | rfl
    · decide
    · exact hn.oneLine c hc
    · decide
  have htrim : trimChars ('[' :: name.toList ++ [']']) = '[' :: name.toList ++ [']'] :=
    trimChars_eq (Trimmed.between (s := ['[']) (t := [']']) ⟨by decide, by decide⟩ (by simp)
      ⟨by decide, by decide⟩ (by simp) name.toList)
  have hkind : lineKind ('[' :: name.toList ++ [']']) = .content 0 ('[' :: name.toList ++ [']']) := by
    rw [lineKind_of_trim htrim (by simp) (by simp [Signed])]
    rfl
  have hst : r.step ('[' :: name.toList ++ [']']) = r.openSection name := by
    rw [step_content h.indent hkind, header?_bracketed hn.ne]
    simp
  obtain ⟨q, hq, hqk, hqi, hqb, hqs⟩ : ∃ q, r.openSection name = .ok q ∧
      q.sections.keys = r.sections.keys ++ (if name = defaultSection then [] else [name]) ∧
      q.indent = r.indent ∧ q.bad = r.bad ∧ q.sect = some name := by
    unfold openSection
    split
    · exact ⟨_, rfl, by simp, rfl, rfl, rfl⟩
    · have hx : r.sections.has name = false := by
        rw [Bool.eq_false_iff]
        exact fun hx => hnew (Table.has_iff.1 hx)
      rw [hx]
      refine ⟨_, if_neg Bool.false_ne_true, ?_, rfl, rfl, rfl⟩
      rw [Table.keys_put, if_neg hnew]
  have hqt := table_openSection hq
  have hqw : q.Within name :=
    ⟨⟨h.sound.step hl (hst.trans hq), hqb.trans h.good, hqi.trans h.indent⟩, hqs⟩
  obtain ⟨p, hp, hpw, u, hu, hpf⟩ := hqw.steps_entries ht.2 (by rw [hqt, hd]; simpa [Table.keys] using ht.1)
  obtain ⟨r', hr, hw, u', hu', hf⟩ := hpw.step_blank
  refine ⟨r', ?_, hw.toMargin, (hf.names.trans hpf.names).trans hqk, fun s => ?_⟩
  · rw [sectionLines, List.cons_append, List.foldlM_cons, hst, hq]
    show (t.flatMap entryLines ++ [[]]).foldlM step q = .ok r'
    rw [List.foldlM_append, hp]
    show ([[]] : List (List Char)).foldlM step p = .ok r'
    rw [List.foldlM_cons, hr]
    rfl
  · rw [hf.table]
    split
    · rw [hu', hpf.table, if_pos rfl, hqt, hd]
      exact hu
    · next hs => rw [hpf.table, if_neg hs, hqt]

theorem Margin.steps_sections (h : r.Margin) {ss : Table (Table String)}
    (hs : ∀ e ∈ ss, FitsSection e.1 ∧ FitsTable e.2) (hn : (r.sections.keys ++ ss.keys).Nodup) :
    ∃ r', (ss.flatMap sectionLines).foldlM step r = .ok r' ∧ r'.Margin ∧
      r'.sections.keys = r.sections.keys ++ ss.keys ∧
      ∀ s, (r'.table s).mapValues join = (ss.get? s).getD ((r.table s).mapValues join) := by
  induction ss generalizing r with
  | nil => exact ⟨r, rfl, h, by simp [Table.keys], fun s => rfl⟩
  | cons e ss ih =>
    obtain ⟨name, t⟩ := e
    obtain ⟨⟨⟨hd, hname⟩, ht⟩, hss⟩ := List.forall_mem_cons.1 hs
    have hnew : name ∉ r.sections.keys := fun hm =>
      (List.nodup_append.1 hn).2.2 name hm name List.mem_cons_self rfl
    have hempty : r.table name = [] := by
      rw [table, if_neg hd, Option.not_isSome_iff_eq_none.1 fun hm => hnew (Table.has_iff.1 hm)]
      rfl
    obtain ⟨q, hq, hqm, hqk, hqt⟩ := h.steps_section hname ht hempty hnew
    rw [if_neg hd] at hqk
    obtain ⟨r', hr, hm, hk, ht'⟩ := ih hqm hss (by rw [hqk]; simpa [Table.keys] using hn)
    refine ⟨r', by rw [List.flatMap_cons, List.foldlM_append, hq]; exact hr, hm, ?_, fun s => ?_⟩
    · rw [hk, hqk]
      simp [Table.keys]
    · have hlast : name ∉ Table.keys ss := (List.nodup_cons.1 (List.nodup_append.1 hn).2.1).1
      rw [ht', hqt, Table.get?_cons]
      split
      · next he =>
        subst he
        rw [Option.not_isSome_iff_eq_none.1 fun hm => hlast (Table.has_iff.1 hm)]
        rfl
      · rfl

end Reader

/-! Whole files. -/

/-- The keys stand in one line each, and the values can be cut into lines. -/
def LinedTable (t : Table String) : Prop := ∀ e ∈ t, OneLine e.1.toList ∧ '\r' ∉ e.2.toList

structure Lined (f : Ini) : Prop where
  defaults : LinedTable f.defaults
  sections : ∀ e ∈ f.sections, OneLine e.1.toList ∧ LinedTable e.2

theorem FitsTable.lined {t : Table String} (h : FitsTable t) : LinedTable t := fun e he =>
  ⟨(h.2 e he).1.oneLine, (h.2 e he).2.noReturn⟩

theorem Fits.lined {f : Ini} (h : f.Fits) : f.Lined :=
  ⟨h.defaults.lined, fun e he => ⟨(h.sections e he).1.2.oneLine, (h.sections e he).2.lined⟩⟩

theorem entry_oneLine {k v : String} (hk : OneLine k.toList) (hv : '\r' ∉ v.toList) :
    ∀ l ∈ entryLines (k, v), OneLine l := by
  have hline : ∀ c ∈ [' ', '=', '\t'], c ≠ '\n' ∧ c ≠ '\r' := by decide
  obtain ⟨m, ms, hm⟩ := List.exists_cons_of_ne_nil (splitChars_ne_nil '\n' v.toList)
  have hpiece : ∀ l ∈ m :: ms, OneLine l := fun l hl c hc => by
    obtain ⟨h1, h2⟩ := mem_of_mem_splitChars (hm ▸ hl) c hc
    exact ⟨h2, fun he => hv (he ▸ h1)⟩
  intro l hl
  simp only [entryLines, hm, List.mem_cons, List.mem_map] at hl
  rcases hl with rfl | ⟨l, hl, rfl⟩
  · intro c hc
    simp only [List.mem_append, List.mem_cons] at hc
    rcases hc with hc | rfl | rfl | rfl | hc
    · exact hk c hc
    · exact hline _ (by simp)
    · exact hline _ (by simp)
    · exact hline _ (by simp)
    · exact hpiece m List.mem_cons_self c hc
  · intro c hc
    rcases List.mem_cons.1 hc with rfl | hc
    · exact hline _ (by simp)
    · exact hpiece l (List.mem_cons_of_mem m hl) c hc

theorem section_oneLine {name : String} {t : Table String} (hn : OneLine name.toList) (ht : LinedTable t) :
    ∀ l ∈ sectionLines (name, t), OneLine l := by
  intro l hl
  simp only [sectionLines, List.mem_append, List.mem_cons, List.mem_flatMap, List.not_mem_nil,
    or_false] at hl
  rcases hl with (rfl | ⟨e, he, hl⟩) | rfl
  · intro c hc
    simp only [List.mem_append, List.mem_cons, List.not_mem_nil, or_false] at hc
    rcases hc with (rfl | hc) | rfl
    · decide
    · exact hn c hc
    · decide
  · exact entry_oneLine (ht e he).1 (ht e he).2 l hl
  · exact nofun

theorem fitsName_default : FitsName defaultSection.toList := ⟨by decide, by unfold OneLine; decide⟩

theorem Lined.oneLine {f : Ini} (h : f.Lined) : ∀ l ∈ f.writtenLines, OneLine l := by
  intro l hl
  rcases List.mem_append.1 hl with hl | hl
  · split at hl
    · exact absurd hl List.not_mem_nil
    · exact section_oneLine fitsName_default.oneLine h.defaults l hl
  · obtain ⟨e, he, hl⟩ := List.mem_flatMap.1 hl
    exact section_oneLine (h.sections e he).1 (h.sections e he).2 l hl

/-- The lines of a file that has been written are those it was written as. -/
theorem fileLines_write {f : Ini} (h : f.Lined) : fileLines f.write.toList = f.writtenLines := by
  rw [toList_write, fileLines_unlines h.oneLine]

/-- What fits a settings file is read back from the text that is written for it. -/
theorem read_write {f : Ini} (h : f.Fits) : read f.write = .ok f := by
  have hstart : Reader.start.Margin := ⟨Reader.sound_start, rfl, rfl⟩
  obtain ⟨q, hq, hqm, hqk, hqt⟩ : ∃ q, (if f.defaults.isEmpty then [] else
        sectionLines (defaultSection, f.defaults)).foldlM Reader.step Reader.start = .ok q ∧ q.Margin ∧
      q.sections.keys = [] ∧ (q.table defaultSection).mapValues Reader.join = f.defaults ∧
      ∀ s, s ≠ defaultSection → (q.table s).mapValues Reader.join = [] := by
    split
    · next he =>
      refine ⟨_, rfl, hstart, rfl, ?_, fun s _ => ?_⟩
      · rw [Reader.table_start, List.isEmpty_iff.1 he]
        rfl
      · rw [Reader.table_start]
        rfl
    · obtain ⟨q, hq, hqm, hqk, hqt⟩ := hstart.steps_section fitsName_default h.defaults rfl nofun
      refine ⟨q, hq, hqm, hqk, by rw [hqt, if_pos rfl], fun s hs => ?_⟩
      rw [hqt, if_neg hs, Reader.table_start]
      rfl
  obtain ⟨r, hr, hm, hk, ht⟩ := hqm.steps_sections h.sections (by rw [hqk]; simpa using h.names)
  rw [hqk, List.nil_append] at hk
  have hlines : f.writtenLines.foldlM Reader.step Reader.start = .ok r := by
    rw [writtenLines, List.foldlM_append, hq]
    exact hr
  have hnone : ∀ s, s ∉ f.sections.keys → f.sections.get? s = none := fun s hs =>
    Option.not_isSome_iff_eq_none.1 fun hx => hs (Table.has_iff.1 hx)
  have hdefault : defaultSection ∉ f.sections.keys := by
    intro hx
    obtain ⟨e, he, hd⟩ := List.mem_map.1 hx
    exact (h.sections e he).1.1 hd
  have hshown : r.shown = f := by
    have hd : r.defaults.mapValues Reader.join = f.defaults := by
      have := ht defaultSection
      rwa [hnone _ hdefault, hqt.1] at this
    have hs : r.sections.mapValues (·.mapValues Reader.join) = f.sections := by
      refine Table.eq_of_get? h.names (by rw [Table.keys_mapValues, hk]) fun s => ?_
      rw [Table.get?_mapValues]
      by_cases hx : s ∈ f.sections.keys
      · obtain ⟨t, hg⟩ := Option.isSome_iff_exists.1 (Table.has_iff.2 hx)
        obtain ⟨u, hu⟩ := Option.isSome_iff_exists.1 (Table.has_iff.2 (hk ▸ hx))
        have hne : s ≠ defaultSection := fun he => hdefault (he ▸ hx)
        have := ht s
        rw [Reader.table, if_neg hne, hg, hu] at this
        rw [hg, hu]
        exact congrArg some this
      · rw [hnone s hx, Option.not_isSome_iff_eq_none.1 fun hy => hx (hk ▸ Table.has_iff.1 hy)]
        rfl
    show (⟨_, _⟩ : Ini) = f
    rw [hd, hs]
  rw [read, fileLines_write h.lined, hlines]
  dsimp only
  rw [Reader.finish_eq, hm.good, hshown]
  rfl

end Macros.Ini

namespace Macros.Settings

/-- What was loaded fits a settings file. -/
theorem load_fits {file : Option String} {s : Settings} (h : load file = .ok s) : s.ini.Fits := by
  cases file with
  | none =>
    obtain rfl := Except.ok.inj h
    exact ⟨⟨.nil, nofun⟩, .nil, nofun⟩
  | some text =>
    cases hr : Ini.read text with
    | error e => simp [load, hr, Except.map] at h
    | ok f =>
      rw [load, hr] at h
      obtain rfl := Except.ok.inj h
      exact Ini.read_fits hr

/-- Settings that fit a file are the same after they have been saved and loaded again. -/
theorem save_reload_of_fits {s : Settings} (h : s.ini.Fits) : s.save.reload = .ok s.save := by
  rw [reload, save, load, Ini.read_write h]
  rfl

/-- Settings that were loaded are the same after they have been saved and loaded again. -/
theorem save_reload {file : Option String} {s : Settings} (h : load file = .ok s) :
    s.save.reload = .ok s.save := save_reload_of_fits (load_fits h)

/-- Brackets and comment signs at odd places, a key of two words, and a value that goes on below. -/
def oddities : String :=
  "[DEFAULT]\nShown = everywhere\n[ a]b ]\n [] x: # no comment\n\n     ; comment\n   y = z\n\n[e]\nKEY:"

theorem oddities_load : load (some oddities) = .ok ⟨⟨[("shown", "everywhere")],
    [(" a]b ", [("[] x", "# no comment\n\ny = z")]), ("e", [("key", "")])]⟩, some oddities⟩ := by
  have hr : Ini.read oddities = .ok ⟨[("shown", "everywhere")],
      [(" a]b ", [("[] x", "# no comment\n\ny = z")]), ("e", [("key", "")])]⟩ := by decide +kernel
  rw [load, hr]
  rfl

theorem oddities_reload : ∃ s, load (some oddities) = .ok s ∧ s.save.reload = .ok s.save :=
  ⟨_, oddities_load, save_reload oddities_load⟩

end Macros.Settings
