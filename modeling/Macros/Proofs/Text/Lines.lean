import Macros.Proofs.Text.Lower

/-!
The lines of a text. A line feed between two texts parts their lines, though an empty line may come in at the
seam; and lines with line feeds between them are split into the same lines, but for an empty one at the end.
-/

namespace Macros.Text

/-- A text without line breaks. -/
def Unbroken (s : List Char) : Prop := ∀ c ∈ s, isLineBreak c = false

instance : DecidablePred Unbroken := fun s => inferInstanceAs (Decidable (∀ c ∈ s, isLineBreak c = false))

namespace Unbroken

theorem nil : Unbroken [] := fun _ hc => absurd hc List.not_mem_nil

theorem append {s t : List Char} (hs : Unbroken s) (ht : Unbroken t) : Unbroken (s ++ t) :=
  List.forall_mem_append.2 ⟨hs, ht⟩

theorem sub {s t : List Char} (h : Unbroken s) (ht : t ⊆ s) : Unbroken t := fun c hc => h c (ht hc)

theorem intercalate {sep : List Char} (hsep : Unbroken sep) {ws : List (List Char)}
    (h : ∀ w ∈ ws, Unbroken w) : Unbroken (sep.intercalate ws) := by
  induction ws with
  | nil => exact nil
  | cons w ws ih =>
    obtain ⟨hw, hws⟩ := List.forall_mem_cons.1 h
    cases ws with
    | nil => rwa [List.intercalate_singleton]
    | cons v vs =>
      rw [List.intercalate_cons_cons]
      exact (hw.append hsep).append (ih hws)

end Unbroken

/-! Splitting. -/

theorem linesChars_cons {c : Char} {s : List Char} (h : c = '\r' → s.head? ≠ some '\n') :
    linesChars (c :: s) = if isLineBreak c then [] :: linesChars s else pushLine c (linesChars s) :=
  linesChars.eq_3 c s fun _ hr hs => h hr (by rw [hs]; rfl)

theorem linesChars_break {c : Char} (hc : isLineBreak c) {s : List Char}
    (h : c = '\r' → s.head? ≠ some '\n') : linesChars (c :: s) = [] :: linesChars s := by
  rw [linesChars_cons h, if_pos hc]

theorem linesChars_char {c : Char} (hc : isLineBreak c = false) (s : List Char) :
    linesChars (c :: s) = pushLine c (linesChars s) := by
  have hr : c ≠ '\r' := fun he => by
    rw [he] at hc
    exact absurd hc (by decide)
  rw [linesChars_cons fun he => absurd he hr, if_neg (by simp [hc])]

theorem linesChars_feed (s : List Char) : linesChars ('\n' :: s) = [] :: linesChars s :=
  linesChars_break (by decide) fun h => absurd h (by decide)

theorem linesChars_line {l : List Char} (h : Unbroken l) (s : List Char) :
    linesChars (l ++ '\n' :: s) = l :: linesChars s := by
  induction l with
  | nil => exact linesChars_feed s
  | cons c l ih =>
    obtain ⟨hc, hl⟩ := List.forall_mem_cons.1 h
    rw [List.cons_append, linesChars_char hc, ih hl, pushLine]

theorem linesChars_unbroken {l : List Char} (h : Unbroken l) (hne : l ≠ []) : linesChars l = [l] := by
  induction l with
  | nil => exact absurd rfl hne
  | cons c l ih =>
    obtain ⟨hc, hl⟩ := List.forall_mem_cons.1 h
    rw [linesChars_char hc]
    cases l with
    | nil => rfl
    | cons d l => rw [ih hl (List.cons_ne_nil d l), pushLine]

/-- Lines put together with line feeds are found again, but for an empty one at the end. -/
theorem linesChars_intercalate {ls : List (List Char)} (h : ∀ l ∈ ls, Unbroken l) :
    linesChars (['\n'].intercalate ls) = ls ∨ ls = linesChars (['\n'].intercalate ls) ++ [[]] := by
  induction ls with
  | nil => exact .inl rfl
  | cons l ls ih =>
    obtain ⟨hl, hls⟩ := List.forall_mem_cons.1 h
    cases ls with
    | nil =>
      rw [List.intercalate_singleton]
      by_cases hne : l = []
      · exact .inr (by rw [hne]; rfl)
      · exact .inl (linesChars_unbroken hl hne)
    | cons m ls =>
      rw [List.intercalate_cons_cons, List.append_assoc, List.singleton_append, linesChars_line hl]
      exact (ih hls).imp (congrArg (l :: ·)) (congrArg (l :: ·))

/-! Two texts with a line feed between them. -/

theorem lines_intercalate {ls : List String} (h : ∀ l ∈ ls, Unbroken l.toList) :
    lines ("\n".intercalate ls) = ls ∨ ls = lines ("\n".intercalate ls) ++ [""] := by
  have hmap : ls = (ls.map String.toList).map String.ofList := by simp [Function.comp_def]
  have hchars : ("\n".intercalate ls).toList = ['\n'].intercalate (ls.map String.toList) := by simp
  rw [lines, hchars]
  refine (linesChars_intercalate (List.forall_mem_map.2 h)).imp (fun he => ?_) fun he => ?_
  · rw [he]
    exact hmap.symm
  · exact hmap.trans ((congrArg (List.map String.ofList) he).trans List.map_append)

end Macros.Text
