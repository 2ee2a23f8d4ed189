import Macros.Proofs.Ini.Written

/-!
Setting an option. The section of the option is made if it is not there, the entry comes last if its key is new,
and everything else stays; what a file can hold still fits it, as long as the new entry does.
-/

namespace Macros

namespace Ini

open Text

variable {f : Ini} {sect key value : String}

/-- An option is set, in a section that is made if it is not there. -/
def put (f : Ini) (sect key value : String) : Ini :=
  { f with sections := f.sections.put sect (((f.sections.get? sect).getD []).put (keyOf key) value) }

theorem set_addSection (hs : sect ≠ "") : (f.addSection sect).set sect key value = f.put sect key value := by
  have he : sect.isEmpty = false := by simpa using hs
  unfold addSection Table.has
  cases hg : f.sections.get? sect with
  | some t => simp [Ini.set, he, hg, put]
  | none => simp [Ini.set, he, hg, put, Table.put_put]

theorem get?_put (sect' key' : String) :
    (f.put sect key value).get? sect' key' =
      if sect' = sect ∧ keyOf key' = keyOf key then some value
      else (f.get? sect' key').or (if sect' = sect then f.defaults.get? (keyOf key') else none) := by
  unfold Ini.get? put
  simp only [Table.get?_put]
  by_cases hs : sect' = sect
  · subst hs
    by_cases hk : keyOf key' = keyOf key
    · simp [hk]
    · cases hg : f.sections.get? sect' with
      | some t => simp [hk, Option.or_assoc, Option.or_self]
      | none =>
        simp only [hk, if_true, and_false, if_false, Option.getD_none, Table.get?_put, Table.get?_nil,
          Option.none_or]
        split
        · rw [Option.or_self]
        · rfl
  · simp [hs]

/-! What fits a file. -/

/-- Lines that are trimmed and not empty are a value; only below the first none may begin a comment. -/
theorem FitsText.of_lines {k v : List Char} {ls : List (List Char)} (hv : FitsFirst k v)
    (hls : ∀ l ∈ ls, FitsLater l) (hne : ∀ l ∈ v :: ls, l ≠ []) :
    FitsText k (['\n'].intercalate (v :: ls)) := by
  refine ⟨⟨v :: ls, .lines hv hls, rfl⟩, trimEndChars_eq _ (trimmed_intercalate fun l hl => ?_).1.last⟩
  refine ⟨?_, hne l hl⟩
  rcases List.mem_cons.1 hl with rfl | hl
  · exact hv.trimmed
  · exact (hls l hl).trimmed

theorem FitsTable.put {t : Table String} (h : FitsTable t) {k v : String} (hk : FitsKey k.toList)
    (hv : FitsText k.toList v.toList) : FitsTable (t.put k v) := by
  refine ⟨Table.nodup_put h.1 k v, fun e he => ?_⟩
  rcases Table.mem_put he with rfl | he
  · exact ⟨hk, hv⟩
  · exact h.2 e he

theorem LinedTable.put {t : Table String} (h : LinedTable t) {k v : String} (hk : OneLine k.toList)
    (hv : '\r' ∉ v.toList) : LinedTable (t.put k v) := fun e he => by
  rcases Table.mem_put he with rfl | he
  · exact ⟨hk, hv⟩
  · exact h e he

theorem Fits.table (h : f.Fits) (sect : String) : FitsTable ((f.sections.get? sect).getD []) := by
  cases hg : f.sections.get? sect with
  | some t => exact (h.sections _ (Table.mem_of_get? hg)).2
  | none => exact ⟨.nil, nofun⟩

theorem Fits.put (h : f.Fits) (hs : FitsSection sect) (hk : FitsKey (keyOf key).toList)
    (hv : FitsText (keyOf key).toList value.toList) : (f.put sect key value).Fits where
  defaults := h.defaults
  names := Table.nodup_put h.names sect _
  sections e he := by
    rcases Table.mem_put he with rfl | he
    · exact ⟨hs, (h.table sect).put hk hv⟩
    · exact h.sections e he

theorem Fits.put_lined (h : f.Fits) (hs : OneLine sect.toList) (hk : OneLine (keyOf key).toList)
    (hv : '\r' ∉ value.toList) : (f.put sect key value).Lined where
  defaults := h.defaults.lined
  sections e he := by
    rcases Table.mem_put he with rfl | he
    · exact ⟨hs, (h.table sect).lined.put hk hv⟩
    · exact h.lined.sections e he

end Ini

namespace Settings

theorem set_eq {sect : String} (hs : Ini.FitsSection sect) (s : Settings) (key value : String) :
    s.set sect key value = .ok { s with ini := s.ini.put sect key value }.save := by
  have hn : sect ≠ "" := fun he => hs.2.ne (by simp [he])
  rw [set, if_neg hs.1, Ini.set_addSection hn]

/-- What is set is there again when the file is read again, if it fits a file. -/
theorem set_reload {s s' : Settings} (h : s.ini.Fits) {sect key value : String} (hs : Ini.FitsSection sect)
    (hk : Ini.FitsKey (Ini.keyOf key).toList) (hv : Ini.FitsText (Ini.keyOf key).toList value.toList)
    (hset : s.set sect key value = .ok s') : s'.ini.Fits ∧ s'.reload = .ok s' := by
  rw [set_eq hs] at hset
  obtain rfl := Except.ok.inj hset
  exact ⟨h.put hs hk hv, save_reload_of_fits (s := { s with ini := s.ini.put sect key value }) (h.put hs hk hv)⟩

end Settings

end Macros
