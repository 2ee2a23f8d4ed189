import Macros.Ini.File
import Macros.Proofs.Table
import Macros.Proofs.Text.Lower
import Macros.Proofs.Text.Words
import Mathlib.Data.List.Induction
import Mathlib.Data.List.TakeWhile

/-!
The entries that a settings file can hold. No key has a delimiter in it, none begins a comment, and no entry
looks like a header; a value is trimmed line by line, and below its first line no line begins a comment.
Whatever a line gives is like that.
-/

namespace Macros.Ini

open Text

/-- A text that stands in one line of a file. -/
def OneLine (s : List Char) : Prop := ∀ c ∈ s, c ≠ '\n' ∧ c ≠ '\r'

/-- A line with the text would be a comment. -/
def Signed (s : List Char) : Prop := ∃ c ∈ s.head?, c = '#' ∨ c = ';'

structure FitsKey (k : List Char) : Prop where
  ne : k ≠ []
  trimmed : Trimmed k
  oneLine : OneLine k
  small : lowerChars k = k
  whole : ∀ c ∈ k, isDelimiter c = false
  unsigned : ¬Signed k

/-- The first line of a value, behind its key, does not make a header of the line. -/
structure FitsFirst (k v : List Char) : Prop where
  trimmed : Trimmed v
  oneLine : OneLine v
  headless : k.head? = some '[' → ']' ∉ k.drop 2 ++ v

/-- A line of a value below the first. -/
structure FitsLater (l : List Char) : Prop where
  trimmed : Trimmed l
  oneLine : OneLine l
  unsigned : ¬Signed l

/-- The lines of a value of the key. -/
inductive FitsLines (k : List Char) : List (List Char) → Prop
  | lines {v : List Char} {ls : List (List Char)} (first : FitsFirst k v) (later : ∀ l ∈ ls, FitsLater l) :
    FitsLines k (v :: ls)

structure FitsName (n : List Char) : Prop where
  ne : n ≠ []
  oneLine : OneLine n

theorem OneLine.sub {s t : List Char} (h : OneLine s) (hs : t ⊆ s) : OneLine t := fun c hc => h c (hs hc)

theorem FitsLater.nil : FitsLater [] := ⟨⟨by simp, by simp⟩, by simp [OneLine], by simp [Signed]⟩

theorem FitsLines.concat {k l : List Char} {ls : List (List Char)} (h : FitsLines k ls) (hl : FitsLater l) :
    FitsLines k (ls ++ [l]) := by
  obtain ⟨hv, hls⟩ := h
  refine .lines hv fun l' hl' => ?_
  rcases List.mem_append.1 hl' with hl' | hl'
  · exact hls l' hl'
  · exact List.mem_singleton.1 hl' ▸ hl

/-! A single line. -/

theorem trimmed_trimChars (s : List Char) : Trimmed (trimChars s) := by
  simpa [trim] using trimmed_trim (String.ofList s)

theorem trimChars_subset (s : List Char) : trimChars s ⊆ s := fun c hc => by
  simpa using mem_of_mem_trim (s := String.ofList s) (c := c) (by simpa [trim] using hc)

theorem lineKind_content {line body : List Char} {n : Nat} (h : lineKind line = .content n body) :
    body = trimChars line ∧ body ≠ [] ∧ ¬Signed body := by
  unfold lineKind at h
  split at h
  · contradiction
  · next c s hs =>
    split at h
    · contradiction
    · next hc =>
      obtain ⟨-, rfl⟩ := LineKind.content.inj h
      refine ⟨hs.symm, by simp, ?_⟩
      simpa [Signed] using hc

/-- A line is a header if it begins with a bracket and has one that closes, with something between. -/
theorem header?_none_iff (body : List Char) :
    header? body = none ↔ (body.head? = some '[' → ']' ∉ body.drop 2) := by
  unfold header?
  split
  · next r =>
    have hr : (r.reverse.dropWhile (· != ']')).drop 1 = [] ↔ ']' ∉ r.drop 1 := by
      cases r with
      | nil => simp
      | cons c r =>
        rw [List.reverse_cons, List.drop_succ_cons, List.drop_zero]
        by_cases hm : ']' ∈ r
        · have hd : r.reverse.dropWhile (· != ']') ≠ [] := by
            simpa [List.dropWhile_eq_nil_iff] using hm
          obtain ⟨d, ds, hds⟩ := List.exists_cons_of_ne_nil hd
          simp [List.dropWhile_append, hds, hm]
        · have hd : r.reverse.dropWhile (· != ']') = [] := by
            simp only [List.dropWhile_eq_nil_iff, List.mem_reverse, bne_iff_ne]
            exact fun c hc he => hm (he ▸ hc)
          simp only [List.dropWhile_append, hd, List.isEmpty_nil, if_true, hm, not_false_eq_true, iff_true]
          simp only [List.dropWhile_cons]
          split <;> rfl
    simp only [List.head?_cons, true_imp_iff, List.drop_succ_cons]
    rw [← hr]
    split
    · next h => simp [h]
    · next h => simpa using h
  · next h =>
    simp only [true_iff]
    intro hb
    cases body with
    | nil => simp at hb
    | cons c s => exact absurd (by rw [Option.some.inj hb]) (h s)

theorem header?_some {body : List Char} {name : String} (h : header? body = some name) :
    name.toList ≠ [] ∧ name.toList ⊆ body := by
  unfold header? at h
  split at h
  · next r =>
    split at h
    · contradiction
    · next hn =>
      obtain rfl := Option.some.inj h
      rw [String.toList_ofList]
      refine ⟨fun he => hn (List.reverse_eq_nil_iff.1 he), fun c hc => List.mem_cons_of_mem _ ?_⟩
      have hc := (List.dropWhile_suffix _).subset ((List.drop_suffix _ _).subset (List.mem_reverse.1 hc))
      exact List.mem_reverse.1 hc
  · contradiction

theorem entry?_some {body : List Char} {key value : String} (h : entry? body = some (key, value)) :
    ∃ k d r, body = k ++ d :: r ∧ (∀ c ∈ k, isDelimiter c = false) ∧
      key.toList = trimEndChars k ∧ value.toList = trimChars r := by
  unfold entry? at h
  split at h
  · contradiction
  · next d r hr =>
    simp only [Option.some.injEq, Prod.mk.injEq] at h
    obtain ⟨rfl, rfl⟩ := h
    refine ⟨_, d, r, ?_, ?_, String.toList_ofList, String.toList_ofList⟩
    · rw [← hr, List.takeWhile_append_dropWhile]
    · intro c hc
      simpa using List.mem_takeWhile_imp hc

/-! The entry of a line. -/

theorem apart_of_delimiter {c : Char} (h : isDelimiter c) : setApart.any (·.contains c.toNat) := by
  simp only [isDelimiter, Bool.or_eq_true, decide_eq_true_eq] at h
  rcases h with rfl | rfl <;> decide

theorem OneLine.lowerChars {s : List Char} (h : OneLine s) : OneLine (lowerChars s) := fun c hc => by
  constructor
  · rintro rfl
    exact (h _ (mem_of_mem_lowerChars hc (by decide))).1 rfl
  · rintro rfl
    exact (h _ (mem_of_mem_lowerChars hc (by decide))).2 rfl

theorem Signed.of_lowerChars {s : List Char} (h : Signed (lowerChars s)) : Signed s := by
  obtain ⟨c, hc, hs⟩ := h
  refine ⟨c, (head_lowerAfter hc).resolve_left (not_settled ?_), hs⟩
  rcases hs with rfl | rfl <;> decide

/-- The small letters of a key hold no bracket that the key does not hold in the same place. -/
theorem headless_lowerChars {k : List Char} (h : k.head? = some '[' → ']' ∉ k.drop 2) :
    (lowerChars k).head? = some '[' → ']' ∉ (lowerChars k).drop 2 := by
  intro hb
  have hk : k.head? = some '[' := (head_lowerAfter hb).resolve_left (not_settled (by decide))
  cases k with
  | nil => simp at hk
  | cons c k =>
    obtain rfl : c = '[' := by simpa using hk
    rw [Text.lowerChars, lowerAfter_small_cons (by unfold Text.Small; decide), List.drop_succ_cons, List.drop_one]
    exact fun hm => h rfl (by simpa using mem_tail_lowerAfter hm (by decide))

theorem prefix_head {s t : List Char} (h : t <+: s) {c : Char} (hc : c ∈ t.head?) : c ∈ s.head? := by
  obtain ⟨r, rfl⟩ := h
  rw [List.head?_append, hc]
  rfl

theorem entry_fits {body : List Char} {key value : String} (ht : Trimmed body) (ho : OneLine body)
    (hs : ¬Signed body) (hh : header? body = none) (he : entry? body = some (key, value))
    (hk : key ≠ "") :
    FitsKey (keyOf key).toList ∧ FitsFirst (keyOf key).toList value.toList := by
  obtain ⟨k, d, r, rfl, hd, hkey, hvalue⟩ := entry?_some he
  have hp : key.toList <+: k := hkey ▸ trimEndChars_prefix k
  have hb : key.toList <+: k ++ d :: r := hp.trans (List.prefix_append _ _)
  have hne : key.toList ≠ [] := by simpa using hk
  have htrim : Trimmed key.toList := by
    refine ⟨fun c hc => ht.first c (prefix_head hb hc), ?_⟩
    rw [hkey, trimEndChars, List.getLast?_reverse]
    exact first_dropWhile _
  have hl : (keyOf key).toList = Text.lowerChars key.toList := String.toList_ofList
  rw [header?_none_iff] at hh
  rw [hl, hvalue]
  refine ⟨⟨?_, htrim.lowerChars, (ho.sub hb.subset).lowerChars, lowerChars_lowerChars _, ?_, ?_⟩,
    ⟨trimmed_trimChars r, ?_, ?_⟩⟩
  · obtain ⟨c, s, hc⟩ := List.exists_cons_of_ne_nil hne
    obtain ⟨image, hi, -, hx⟩ := lowerAfter_cons [] c s
    rw [hc, Text.lowerChars, hx]
    simp [hi]
  · intro c hc
    rw [Bool.eq_false_iff]
    intro hx
    exact absurd hx (by simp [hd c (hp.subset (mem_of_mem_lowerChars hc (apart_of_delimiter hx)))])
  · intro hx
    obtain ⟨c, hc, hx⟩ := hx.of_lowerChars
    exact hs ⟨c, prefix_head hb hc, hx⟩
  · exact ho.sub fun c hc => List.mem_append_right _ (List.mem_cons_of_mem d (trimChars_subset r hc))
  · intro hx
    have hx' := (head_lowerAfter hx).resolve_left (not_settled (by decide))
    have hbody := hh (prefix_head hb hx')
    rw [List.mem_append, not_or]
    constructor
    · refine headless_lowerChars (fun _ hm => hbody ?_) hx
      obtain ⟨q, hq⟩ := hb
      rw [← hq, List.drop_append]
      exact List.mem_append_left _ hm
    · intro hm
      refine hbody ?_
      -- the key has a character before the delimiter
      obtain ⟨c, s, rfl⟩ := List.exists_cons_of_ne_nil (fun hk : k = [] => by simp_all)
      rw [List.cons_append, List.drop_succ_cons, List.drop_append, List.mem_append]
      have hr : ']' ∈ r := trimChars_subset r hm
      cases s with
      | nil => exact .inr hr
      | cons e s => exact .inr (by simpa using .inr hr)

/-! The lines of a value as one text. -/

theorem trimEndChars_blank (s : List Char) {c : Char} (hc : isBlank c) :
    trimEndChars (s ++ [c]) = trimEndChars s := by
  simp [trimEndChars, hc]

/-- The text of a value, without blanks at its end. -/
structure FitsText (k v : List Char) : Prop where
  lines : ∃ ls, FitsLines k ls ∧ v = ['\n'].intercalate ls
  trimmed : trimEndChars v = v

theorem FitsLines.text {k : List Char} {ls : List (List Char)} (h : FitsLines k ls) :
    FitsText k (trimEndChars (['\n'].intercalate ls)) := by
  obtain ⟨hv, hls⟩ := h
  rename_i v ls
  induction ls using List.reverseRecOn with
  | nil =>
    have ht := trimEndChars_eq v hv.trimmed.last
    rw [List.intercalate_singleton, ht]
    exact ⟨⟨[v], .lines hv nofun, (List.intercalate_singleton ..).symm⟩, ht⟩
  | append_singleton ls l ih =>
    obtain ⟨hls', hl⟩ := List.forall_mem_append.1 hls
    have he : ['\n'].intercalate (v :: (ls ++ [l])) = ['\n'].intercalate (v :: ls) ++ '\n' :: l := by
      simp [intercalate_eq_flatMap]
    rw [he]
    by_cases hn : l = []
    · rw [hn, trimEndChars_blank _ (by decide)]
      exact ih hls'
    · have ht : trimEndChars (['\n'].intercalate (v :: ls) ++ '\n' :: l) =
          ['\n'].intercalate (v :: ls) ++ '\n' :: l := by
        refine trimEndChars_eq _ fun c hc => (hl l (by simp)).trimmed.last c ?_
        obtain ⟨d, s, rfl⟩ := List.exists_cons_of_ne_nil hn
        simpa [List.getLast?_append, List.getLast?_cons_cons] using hc
      rw [ht]
      exact ⟨⟨_, .lines hv hls, he.symm⟩, ht⟩

end Macros.Ini
