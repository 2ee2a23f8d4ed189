import Macros.Proofs.Ini.Entry

/-!
Reading a settings file line by line. What has been read fits a settings file at every moment, and the line
that comes next goes on with an entry that is there; so a file that is not refused holds nothing else.
-/

namespace Macros.Ini

open Text

/-- An entry while its value is kept as lines. -/
def FitsEntry (e : String × List String) : Prop :=
  FitsKey e.1.toList ∧ FitsLines e.1.toList (e.2.map String.toList)

def FitsTable (t : Table String) : Prop :=
  t.keys.Nodup ∧ ∀ e ∈ t, FitsKey e.1.toList ∧ FitsText e.1.toList e.2.toList

def FitsSection (name : String) : Prop := name ≠ defaultSection ∧ FitsName name.toList

/-- What a settings file can hold. -/
structure Fits (f : Ini) : Prop where
  defaults : FitsTable f.defaults
  names : f.sections.keys.Nodup
  sections : ∀ e ∈ f.sections, FitsSection e.1 ∧ FitsTable e.2

namespace Reader

variable {r r' : Reader} {s k : String}

/-- What has been read of a section. -/
def table (r : Reader) (s : String) : Table (List String) :=
  if s = defaultSection then r.defaults else (r.sections.get? s).getD []

structure Sound (r : Reader) : Prop where
  names : r.sections.keys.Nodup
  named : ∀ s ∈ r.sections.keys, FitsSection s
  once : ∀ s, (r.table s).keys.Nodup
  sect : ∀ s, r.sect = some s → s ≠ defaultSection → s ∈ r.sections.keys
  key : ∀ s k, r.sect = some s → r.key = some k → k ∈ (r.table s).keys
  seen : ∀ s k, (s, k) ∈ r.seen → k ∈ (r.table s).keys
  fits : r.bad = false → ∀ s, ∀ e ∈ r.table s, FitsEntry e

@[simp] theorem table_start (s : String) : start.table s = [] := by
  unfold table
  split <;> rfl

theorem sound_start : start.Sound where
  names := .nil
  named := nofun
  once s := by simp [Table.keys]
  sect := nofun
  key := nofun
  seen := nofun
  fits _ s := by simp

/-! Changing the entries of a section. -/

theorem table_update (r : Reader) (s : String) (f : Table (List String) → Table (List String))
    (s' : String) : (r.update s f).table s' = if s' = s then f (r.table s) else r.table s' := by
  unfold update table
  by_cases hs : s = defaultSection
  · subst hs
    by_cases hs' : s' = defaultSection <;> simp [hs']
  · by_cases hs' : s' = s
    · simp [hs', hs]
    · by_cases hd : s' = defaultSection
      · simp [hs, hd, Ne.symm hs]
      · simp [hs, hs', hd]

theorem update_rest (r : Reader) (s : String) (f : Table (List String) → Table (List String)) :
    (r.update s f).sect = r.sect ∧ (r.update s f).key = r.key ∧ (r.update s f).seen = r.seen ∧
      (r.update s f).bad = r.bad ∧ (r.update s f).indent = r.indent := by
  unfold update
  split <;> exact ⟨rfl, rfl, rfl, rfl, rfl⟩

theorem keys_update (hs : s ≠ defaultSection → s ∈ r.sections.keys)
    (f : Table (List String) → Table (List String)) :
    (r.update s f).sections.keys = r.sections.keys := by
  unfold update
  split
  · rfl
  · next hn => rw [Table.keys_put, if_pos (hs hn)]

/-- Entries of a section may come in as long as none goes out. -/
theorem Sound.update (h : r.Sound) (hs : s ≠ defaultSection → s ∈ r.sections.keys)
    {f : Table (List String) → Table (List String)} (hk : (r.table s).keys ⊆ (f (r.table s)).keys)
    (ho : (f (r.table s)).keys.Nodup) (hf : r.bad = false → ∀ e ∈ f (r.table s), FitsEntry e) :
    (r.update s f).Sound := by
  obtain ⟨h1, h2, h3, h4, -⟩ := update_rest r s f
  have hsub : ∀ s', (r.table s').keys ⊆ ((r.update s f).table s').keys := fun s' => by
    rw [table_update]
    split
    · next he => rwa [he]
    · exact fun _ hj => hj
  constructor
  · rw [keys_update hs]
    exact h.names
  · rw [keys_update hs]
    exact h.named
  · intro s'
    rw [table_update]
    split
    · exact ho
    · exact h.once s'
  · rw [h1, keys_update hs]
    exact h.sect
  · rw [h1, h2]
    exact fun s' k' hs' hk' => hsub s' (h.key s' k' hs' hk')
  · rw [h3]
    exact fun s' k' hm => hsub s' (h.seen s' k' hm)
  · rw [h4]
    intro hb s'
    rw [table_update]
    split
    · exact hf hb
    · exact h.fits hb s'

theorem open?_some (h : r.open? = some (s, k)) : r.sect = some s ∧ r.key = some k := by
  unfold open? at h
  split at h
  · next hs hk =>
    split at h
    · contradiction
    · simp only [Option.some.injEq, Prod.mk.injEq] at h
      obtain ⟨rfl, rfl⟩ := h
      exact ⟨hs, hk⟩
  · contradiction

theorem Sound.goOn (h : r.Sound) (ho : r.open? = some (s, k)) {line : String}
    (hl : FitsLater line.toList) : (r.goOn s k line).Sound := by
  obtain ⟨hs, hk⟩ := open?_some ho
  refine h.update (h.sect s hs) (fun j hj => Table.mem_keys_put.2 (.inl hj))
    (Table.nodup_put (h.once s) k _) fun hb e he => ?_
  rcases Table.mem_put he with rfl | he
  · obtain ⟨ls, hls⟩ := Option.isSome_iff_exists.1 (Table.has_iff.2 (h.key s k hs hk))
    obtain ⟨h1, h2⟩ := h.fits hb s _ (Table.mem_of_get? hls)
    rw [hls]
    exact ⟨h1, by simpa using h2.concat hl⟩
  · exact h.fits hb s e he

/-- A section that is opened holds nothing more than before, which is nothing at all if it is new. -/
theorem table_openSection {name : String} (hr : r.openSection name = .ok r') (s : String) :
    r'.table s = r.table s := by
  unfold openSection at hr
  split at hr
  · exact Except.ok.inj hr ▸ rfl
  · split at hr
    · contradiction
    · next hx =>
      obtain rfl := Except.ok.inj hr
      unfold table
      split
      · rfl
      · simp only [Table.get?_put]
        split
        · next hs =>
          have hg : r.sections.get? s = none := by simpa [Table.has, hs] using hx
          simp [hg]
        · rfl

theorem Sound.openSection (h : r.Sound) {name : String} (hn : FitsName name.toList)
    (hr : r.openSection name = .ok r') : r'.Sound := by
  have ht := table_openSection hr
  unfold Reader.openSection at hr
  split at hr
  · next hd =>
    obtain rfl := Except.ok.inj hr
    exact { h with sect := fun s hs hx => absurd (hd ▸ (Option.some.inj hs).symm) hx, key := nofun }
  · next hd =>
    split at hr
    · contradiction
    · obtain rfl := Except.ok.inj hr
      constructor
      · exact Table.nodup_put h.names name []
      · intro s hs
        rcases Table.mem_keys_put.1 hs with hs | rfl
        · exact h.named s hs
        · exact ⟨hd, hn⟩
      · exact fun s => ht s ▸ h.once s
      · exact fun s hs _ => Table.mem_keys_put.2 (.inr (Option.some.inj hs).symm)
      · nofun
      · exact fun s k hm => ht s ▸ h.seen s k hm
      · exact fun hb s => ht s ▸ h.fits hb s

theorem Sound.addEntry (h : r.Sound) (hs : r.sect = some s) {key value : String}
    (hf : key ≠ "" → FitsKey (keyOf key).toList ∧ FitsFirst (keyOf key).toList value.toList)
    (hr : r.addEntry s key value = .ok r') : r'.Sound := by
  unfold Reader.addEntry at hr
  dsimp only at hr
  split at hr
  · contradiction
  · obtain rfl := Except.ok.inj hr
    generalize hq : ({ r with bad := r.bad || key.isEmpty } : Reader) = q
    have h0 : q.Sound := hq ▸ { h with fits := fun hb => h.fits (by simp_all) }
    have hsq : q.sect = some s := hq ▸ hs
    have h1 : (q.update s fun t => t.put (keyOf key) [value]).Sound := by
      refine h0.update (h0.sect s hsq) (fun j hj => Table.mem_keys_put.2 (.inl hj))
        (Table.nodup_put (h0.once s) _ _) fun hb e he => ?_
      rcases Table.mem_put he with rfl | he
      · obtain ⟨hk, hv⟩ := hf (by rintro rfl; simp [← hq] at hb)
        exact ⟨hk, .lines hv nofun⟩
      · exact h0.fits hb s e he
    have hin : keyOf key ∈ ((q.update s fun t => t.put (keyOf key) [value]).table s).keys := by
      rw [table_update, if_pos rfl]
      exact Table.mem_keys_put.2 (.inr rfl)
    have hr : { (r.update s fun t => t.put (keyOf key) [value]) with
          key := some (keyOf key), seen := (s, keyOf key) :: r.seen, bad := r.bad || key.isEmpty } =
        { (q.update s fun t => t.put (keyOf key) [value]) with
          key := some (keyOf key), seen := (s, keyOf key) :: q.seen } := by
      rw [← hq]
      unfold Reader.update
      split <;> rfl
    obtain ⟨h2, -, h3, -, -⟩ := update_rest q s fun t => t.put (keyOf key) [value]
    rw [hr]
    refine { h1 with key := fun s' k hs' hk => ?_, seen := fun s' k hm => ?_ }
    · obtain rfl : s = s' := Option.some.inj ((h2.trans hsq).symm.trans hs')
      obtain rfl := Option.some.inj hk
      exact hin
    · rcases List.mem_cons.1 hm with he | hm
      · obtain ⟨rfl, rfl⟩ := Prod.mk.inj he
        exact hin
      · exact h1.seen s' k (h3 ▸ hm)

theorem Sound.step (h : r.Sound) {line : List Char} (ho : OneLine line) (hr : r.step line = .ok r') :
    r'.Sound := by
  unfold Reader.step at hr
  split at hr
  · exact Except.ok.inj hr ▸ h
  · split at hr
    · next hopen => exact Except.ok.inj hr ▸ h.goOn hopen (by simpa using FitsLater.nil)
    · exact Except.ok.inj hr ▸ h
  · next n body hl =>
    obtain ⟨rfl, -, hs⟩ := lineKind_content hl
    have hb : OneLine (trimChars line) := ho.sub (trimChars_subset line)
    have ht := trimmed_trimChars line
    dsimp only at hr
    split at hr
    · next hopen _ => exact Except.ok.inj hr ▸ h.goOn hopen (by simpa using ⟨ht, hb, hs⟩)
    · have h1 : ({ r with indent := n } : Reader).Sound := { h with }
      split at hr
      · next name hname =>
        obtain ⟨hne, hsub⟩ := header?_some hname
        exact h1.openSection ⟨hne, hb.sub hsub⟩ hr
      · next hhead =>
        split at hr
        · contradiction
        · next s hsect =>
          split at hr
          · next key value he => exact h1.addEntry hsect (entry_fits ht hb hs hhead he) hr
          · exact Except.ok.inj hr ▸ { h1 with fits := nofun }

theorem Sound.steps (h : r.Sound) {ls : List (List Char)} (ho : ∀ l ∈ ls, OneLine l)
    (hr : ls.foldlM Reader.step r = .ok r') : r'.Sound := by
  induction ls generalizing r with
  | nil => exact Except.ok.inj hr ▸ h
  | cons l ls ih =>
    obtain ⟨hl, hls⟩ := List.forall_mem_cons.1 ho
    rw [List.foldlM_cons] at hr
    cases hq : r.step l with
    | error e => rw [hq] at hr; contradiction
    | ok q => rw [hq] at hr; exact ih (h.step hl hq) hls hr

/-! The end of the file. -/

/-- What has been read, with the lines of every value as one text. -/
def shown (r : Reader) : Ini := ⟨r.defaults.mapValues join, r.sections.mapValues (·.mapValues join)⟩

theorem finish_eq (r : Reader) : r.finish = if r.bad then .error .badLine else .ok r.shown := rfl

theorem toList_join (ls : List String) :
    (join ls).toList = trimEndChars (['\n'].intercalate (ls.map String.toList)) := by
  simp [join]

theorem Sound.fits_table (h : r.Sound) (hb : r.bad = false) (s : String) :
    FitsTable ((r.table s).mapValues join) := by
  refine ⟨by rw [Table.keys_mapValues]; exact h.once s, fun e he => ?_⟩
  obtain ⟨d, hd, rfl⟩ := List.mem_map.1 he
  obtain ⟨hk, hl⟩ := h.fits hb s d hd
  exact ⟨hk, by rw [toList_join]; exact hl.text⟩

theorem Sound.fits_shown (h : r.Sound) (hb : r.bad = false) : r.shown.Fits where
  defaults := h.fits_table hb defaultSection
  names := by
    rw [shown, Table.keys_mapValues]
    exact h.names
  sections := by
    intro e he
    obtain ⟨⟨s, t⟩, hm, rfl⟩ := List.mem_map.1 he
    have hs := h.named s (List.mem_map_of_mem hm)
    have ht : r.table s = t := by
      rw [table, if_neg hs.1, (Table.get?_iff h.names).2 hm]
      rfl
    exact ⟨hs, ht ▸ h.fits_table hb s⟩

end Reader

theorem not_mem_unifyBreaksChars (s : List Char) : '\r' ∉ unifyBreaksChars s := by
  fun_induction unifyBreaksChars s with
  | case1 => simp
  | case2 s ih => simpa using ih
  | case3 c s _ ih =>
    rw [List.mem_cons, not_or]
    refine ⟨?_, ih⟩
    split
    · decide
    · next hc => exact Ne.symm hc

theorem fileLines_oneLine {s l : List Char} (h : l ∈ fileLines s) : OneLine l := by
  have hl : l ∈ splitChars '\n' (unifyBreaksChars s) := by
    unfold fileLines at h
    dsimp only at h
    split at h
    · exact List.dropLast_subset _ h
    · exact h
  intro c hc
  obtain ⟨h1, h2⟩ := mem_of_mem_splitChars hl c hc
  exact ⟨h2, fun he => not_mem_unifyBreaksChars s (he ▸ h1)⟩

theorem read_fits {text : String} {f : Ini} (h : read text = .ok f) : f.Fits := by
  unfold read at h
  split at h
  · contradiction
  · next r hr =>
    have hs := Reader.sound_start.steps (fun _ => fileLines_oneLine) hr
    rw [Reader.finish_eq] at h
    split at h
    · contradiction
    · next hb => exact Except.ok.inj h ▸ hs.fits_shown (by simpa using hb)

end Macros.Ini
