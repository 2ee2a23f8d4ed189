import Macros.Table
import Mathlib.Data.List.Nodup

/-!
Tables as lists of entries. A key that is new comes last; one that is there keeps its place, so no key ever
is there twice.
-/

namespace Macros

namespace Table

variable {α : Type}

theorem put_new {t : Table α} {k : String} (h : k ∉ t.keys) (v : α) : t.put k v = t ++ [(k, v)] := by
  induction t with
  | nil => rfl
  | cons e t ih =>
    obtain ⟨j, w⟩ := e
    simp only [keys, List.map_cons, List.mem_cons, not_or] at h
    rw [put, if_neg (Ne.symm h.1), ih h.2, List.cons_append]

theorem has_iff {t : Table α} {k : String} : t.has k ↔ k ∈ t.keys := by
  induction t with
  | nil => simp [has, keys]
  | cons e t ih =>
    obtain ⟨j, w⟩ := e
    simp only [has, keys, get?_cons, List.map_cons, List.mem_cons] at ih ⊢
    by_cases h : k = j
    · simp [h]
    · rw [if_neg h, ih]
      simp [h]

theorem ne_of_has {t : Table α} {k : String} (h : t.has k = false) {e : String × α} (he : e ∈ t) :
    e.1 ≠ k := by
  rintro rfl
  rw [Bool.eq_false_iff, ne_eq, has_iff] at h
  exact h (List.mem_map_of_mem he)

theorem get?_iff {t : Table α} (h : t.keys.Nodup) {k : String} {v : α} :
    t.get? k = some v ↔ (k, v) ∈ t := by
  refine ⟨mem_of_get?, fun hm => ?_⟩
  induction t with
  | nil => exact absurd hm List.not_mem_nil
  | cons e t ih =>
    obtain ⟨j, w⟩ := e
    obtain ⟨hj, ht⟩ := List.nodup_cons.1 h
    rw [get?_cons]
    rcases List.mem_cons.1 hm with he | hm
    · obtain ⟨rfl, rfl⟩ := Prod.mk.inj he
      exact if_pos rfl
    · have hk : k ∈ keys t := List.mem_map.2 ⟨_, hm, rfl⟩
      have hne : k ≠ j := fun he => hj (he ▸ hk)
      rw [if_neg hne]
      exact ih ht hm

/-- Where no key is there twice, the order of a table does not matter. -/
theorem get?_perm {t u : Table α} (h : t.keys.Nodup) (hp : u.Perm t) (k : String) :
    u.get? k = t.get? k := by
  have hu : u.keys.Nodup := (hp.map Prod.fst).nodup_iff.2 h
  ext v
  rw [get?_iff hu, get?_iff h, hp.mem_iff]

theorem keys_put (t : Table α) (k : String) (v : α) :
    (t.put k v).keys = if k ∈ t.keys then t.keys else t.keys ++ [k] := by
  induction t with
  | nil => rfl
  | cons e t ih =>
    obtain ⟨j, w⟩ := e
    simp only [keys] at ih
    by_cases h : j = k
    · simp [put, keys, h]
    · rw [put, if_neg h]
      simp only [keys, List.map_cons, ih, List.mem_cons, Ne.symm h, false_or]
      by_cases hk : k ∈ t.map (·.1) <;> simp [hk]

theorem mem_keys_put {t : Table α} {k : String} {v : α} {j : String} :
    j ∈ (t.put k v).keys ↔ j ∈ t.keys ∨ j = k := by
  rw [keys_put]
  split
  · next h => exact ⟨.inl, fun hj => hj.elim id fun he => he ▸ h⟩
  · simp

theorem nodup_put {t : Table α} (h : t.keys.Nodup) (k : String) (v : α) : (t.put k v).keys.Nodup := by
  rw [keys_put]
  split
  · exact h
  · next hk => exact List.nodup_append.2 ⟨h, by simp, fun j hj i hi he => hk (by simp_all)⟩

theorem mem_put {t : Table α} {k : String} {v : α} {e : String × α} (h : e ∈ t.put k v) :
    e = (k, v) ∨ e ∈ t := by
  induction t with
  | nil => exact .inl (List.mem_singleton.1 h)
  | cons d t ih =>
    obtain ⟨j, w⟩ := d
    rw [put] at h
    split at h
    · next hj =>
      rcases List.mem_cons.1 h with rfl | h
      · exact .inl (by rw [hj])
      · exact .inr (List.mem_cons_of_mem _ h)
    · rcases List.mem_cons.1 h with rfl | h
      · exact .inr List.mem_cons_self
      · exact (ih h).imp_right (List.mem_cons_of_mem _)

theorem put_self {t : Table α} {k : String} {v : α} (h : t.get? k = some v) : t.put k v = t := by
  induction t with
  | nil => simp at h
  | cons e t ih =>
    obtain ⟨j, w⟩ := e
    rw [get?_cons] at h
    rw [put]
    split
    · next hj =>
      rw [if_pos hj.symm] at h
      rw [Option.some.inj h]
    · next hj =>
      rw [if_neg (Ne.symm hj)] at h
      rw [ih h]

theorem put_put (t : Table α) (k : String) (v w : α) : (t.put k v).put k w = t.put k w := by
  induction t with
  | nil => exact if_pos rfl
  | cons e t ih =>
    obtain ⟨j, u⟩ := e
    by_cases hj : j = k
    · simp [put, hj]
    · rw [put, if_neg hj, put, if_neg hj, ih, put, if_neg hj]

/-- What is made of the entries does not tell two values of a key apart if what is made of each does not. -/
theorem flatMap_put {β : Type} {g : String × α → List β} {k : String} {v w : α} (h : g (k, v) = g (k, w))
    (t : Table α) : (t.put k v).flatMap g = (t.put k w).flatMap g := by
  induction t with
  | nil => simpa [put] using h
  | cons e t ih =>
    obtain ⟨j, u⟩ := e
    by_cases hj : j = k
    · simp [put, hj, h]
    · rw [put, if_neg hj, List.flatMap_cons, ih, put, if_neg hj, List.flatMap_cons]

theorem get?_last {t : Table α} {k : String} (h : k ∉ t.keys) (v : α) :
    (t ++ [(k, v)]).get? k = some v := by
  rw [← put_new h, get?_put, if_pos rfl]

theorem put_last {t : Table α} {k : String} (h : k ∉ t.keys) (v w : α) :
    (t ++ [(k, v)]).put k w = t ++ [(k, w)] := by
  induction t with
  | nil => exact if_pos rfl
  | cons e t ih =>
    obtain ⟨j, u⟩ := e
    simp only [keys, List.map_cons, List.mem_cons, not_or] at h
    rw [List.cons_append, put, if_neg (Ne.symm h.1), ih h.2, List.cons_append]

/-- Tables with the same keys in the same order hold the same if each key has the same value. -/
theorem eq_of_get? {t u : Table α} (h : t.keys.Nodup) (hk : u.keys = t.keys)
    (hg : ∀ k, u.get? k = t.get? k) : u = t := by
  induction t generalizing u with
  | nil => simpa [keys] using hk
  | cons e t ih =>
    obtain ⟨j, v⟩ := e
    obtain ⟨⟨i, w⟩, u, rfl, hi, hu⟩ := List.map_eq_cons_iff.1 hk
    obtain rfl : i = j := hi
    obtain ⟨hj, ht⟩ := List.nodup_cons.1 h
    have hw : w = v := by simpa using hg i
    have hne : ∀ k ∈ keys t, k ≠ i := fun k hm he => hj (he ▸ hm)
    rw [hw, ih ht hu fun k => ?_]
    by_cases hki : k = i
    · have hn : ∀ x : Table α, x.keys = keys t → x.get? k = none := fun x hx => by
        rw [← Option.not_isSome_iff_eq_none]
        intro hs
        have hm : k ∈ keys t := hx ▸ has_iff.1 hs
        exact hne k hm hki
      rw [hn u hu, hn t rfl]
    · simpa [hki] using hg k

/-- The same keys, with other values. -/
def mapValues {β : Type} (f : α → β) (t : Table α) : Table β := t.map fun e => (e.1, f e.2)

section

variable {β : Type} (f : α → β)

@[simp] theorem keys_mapValues (t : Table α) : (t.mapValues f).keys = t.keys := by
  simp [mapValues, keys, List.map_map, Function.comp_def]

@[simp] theorem get?_mapValues (t : Table α) (k : String) : (t.mapValues f).get? k = (t.get? k).map f := by
  induction t with
  | nil => rfl
  | cons e t ih =>
    obtain ⟨j, w⟩ := e
    simp only [mapValues, List.map_cons, get?_cons] at ih ⊢
    split
    · rfl
    · exact ih

theorem mapValues_put (t : Table α) (k : String) (v : α) :
    (t.put k v).mapValues f = (t.mapValues f).put k (f v) := by
  induction t with
  | nil => rfl
  | cons e t ih =>
    obtain ⟨j, w⟩ := e
    simp only [mapValues, put, List.map_cons] at ih ⊢
    split
    · rfl
    · rw [List.map_cons, ih]

end

end Table

end Macros
