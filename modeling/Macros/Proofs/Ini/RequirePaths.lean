import Macros.Proofs.Ini.Persisted
import Macros.Proofs.Text.Lines

/-!
The paths that scripts look for modules in. They are kept as one option, a path in each of its lines, which is
cut into paths again whenever one comes in; what is cut out are the paths that went in, before and after the file
is read again.
-/

namespace Macros.Settings

open Text

/-- A path as it stands in a line of the option. -/
structure PathLine (p : String) : Prop where
  ne : p ≠ ""
  trimmed : trim p = p
  unbroken : Unbroken p.toList
  unsigned : ¬Ini.Signed p.toList

theorem PathLine.option {p : String} (h : PathLine p) : Ini.OptionLine p where
  ne := h.ne
  trimmed := h.trimmed
  whole c hc := by
    have hb := h.unbroken c hc
    constructor <;> rintro rfl <;> exact absurd hb (by decide)

/-- The option holds the paths, and the file holds the settings. -/
structure Holding (s : Settings) (paths : List String) : Prop where
  fits : s.ini.Fits
  kept : s.reload = .ok s
  option : s.get? "LUA" "require_paths" = if paths = [] then none else some ("\n".intercalate paths)
  each : ∀ p ∈ paths, PathLine p

variable {s s' : Settings} {paths : List String} {p : String}

/-- The lines of the option are the paths. -/
theorem Holding.requirePaths_eq (h : s.Holding paths) : s.requirePaths = paths := by
  rw [requirePaths, h.option]
  split
  · next hn =>
    rw [hn]
    rfl
  · have hl : lines ("\n".intercalate paths) = paths := by
      refine (lines_intercalate fun p hp => (h.each p hp).unbroken).resolve_right fun he => ?_
      have hm : "" ∈ paths := he ▸ List.mem_append_right _ (List.mem_singleton_self "")
      exact (h.each "" hm).ne rfl
    have hm : paths.map trim = paths :=
      (List.map_congr_left (g := id) fun p hp => (h.each p hp).trimmed).trans (List.map_id paths)
    rw [Option.getD_some, hl, hm, List.filter_eq_self]
    intro p hp
    simpa using (h.each p hp).ne

theorem Holding.addRequirePath?_eq (h : s.Holding paths) (p : String) :
    s.addRequirePath? p = if trim p = "" ∨ trim p ∈ paths then none else
      (s.set "LUA" "require_paths" ("\n".intercalate (paths ++ [trim p]))).toOption := by
  simp [addRequirePath?, h.requirePaths_eq]

theorem reads_requirePaths : Reads "LUA" "require_paths" := .named (by decide)

/-- A path that is new comes last. -/
theorem Holding.add (h : s.Holding paths) (hp : PathLine p) :
    ∃ s', s.set "LUA" "require_paths" ("\n".intercalate (paths ++ [p])) = .ok s' ∧ s'.Holding (paths ++ [p]) := by
  have hlines : ∀ q ∈ paths ++ [p], PathLine q := List.forall_mem_append.2
    ⟨h.each, fun q hq => List.mem_singleton.1 hq ▸ hp⟩
  have hn : paths ++ [p] ≠ [] := by simp
  obtain ⟨hs, hk, hb⟩ := reads_requirePaths.fits
  have hh : Ini.heard (paths ++ [p]) = paths ++ [p] := (Ini.heard_eq_iff _).2 fun q hq =>
    (hlines q (List.mem_of_mem_tail hq)).unsigned
  have hv := Ini.fitsText_heard hb hn fun q hq => (hlines q hq).option
  rw [hh] at hv
  obtain ⟨hf, hr⟩ := set_reload h.fits hs hk hv (set_eq hs s _ _)
  refine ⟨_, set_eq hs s _ _, hf, hr, ?_, hlines⟩
  rw [if_neg hn]
  exact (Ini.get?_put _ _).trans (if_pos ⟨rfl, rfl⟩)

end Macros.Settings

namespace Macros

/-- What happens to the paths. -/
inductive PathStep
  | add (path : String)
  | reload

namespace PathStep

/-- A path that is not new leaves the settings as they are. The file can be read again or is refused. -/
def apply (s : Settings) : PathStep → Except IniError Settings
  | add p => .ok ((s.addRequirePath? p).getD s)
  | reload => s.reload

def path? : PathStep → Option String
  | add p => some (Text.trim p)
  | reload => none

/-- The paths that were added, each where it came first. -/
def added (xs : List PathStep) : List String := ((xs.filterMap path?).filter (!·.isEmpty)).eraseDups

/-- A path that is added stands in one line, which is no comment. -/
def Plain : PathStep → Prop
  | add p => Text.Unbroken p.toList ∧ ¬Ini.Signed (Text.trim p).toList
  | reload => True

instance : DecidablePred Plain
  | add p => inferInstanceAs (Decidable (Text.Unbroken p.toList ∧ ¬Ini.Signed (Text.trim p).toList))
  | reload => isTrue trivial

theorem eraseDups_concat (l : List String) (a : String) :
    (l ++ [a]).eraseDups = if a ∈ l then l.eraseDups else l.eraseDups ++ [a] := by
  rw [List.eraseDups_append, List.cons_removeAll]
  by_cases ha : a ∈ l <;> simp [ha, List.removeAll, List.eraseDups_cons]

theorem added_reload (xs : List PathStep) : added (xs ++ [.reload]) = added xs := by
  have hn : [reload].filterMap path? = [] := rfl
  rw [added, List.filterMap_append, hn, List.append_nil]
  rfl

theorem added_add (xs : List PathStep) (p : String) : added (xs ++ [.add p]) =
    if Text.trim p = "" ∨ Text.trim p ∈ added xs then added xs else added xs ++ [Text.trim p] := by
  have hp : [add p].filterMap path? = [Text.trim p] := rfl
  unfold added
  rw [List.filterMap_append, hp, List.filter_append]
  by_cases he : Text.trim p = ""
  · simp [he]
  · rw [List.filter_cons_of_pos (by simpa using he), List.filter_nil, eraseDups_concat]
    simp only [he, false_or, List.mem_eraseDups]

end PathStep

namespace Settings

variable {s : Settings} {paths : List String} {xs : List PathStep}

theorem Holding.step (h : s.Holding (PathStep.added xs)) {x : PathStep} (hx : x.Plain) :
    ∃ s', x.apply s = .ok s' ∧ s'.Holding (PathStep.added (xs ++ [x])) := by
  cases x with
  | reload => exact ⟨s, h.kept, by rwa [PathStep.added_reload]⟩
  | add p =>
    refine ⟨_, rfl, ?_⟩
    rw [PathStep.added_add, h.addRequirePath?_eq]
    by_cases hp : Text.trim p = "" ∨ Text.trim p ∈ PathStep.added xs
    · rw [if_pos hp, if_pos hp]
      exact h
    · rw [if_neg hp, if_neg hp]
      have hl : PathLine (Text.trim p) :=
        { ne := fun he => hp (.inl he)
          trimmed := (Text.trimmed_trim p).trim_eq
          unbroken := hx.1.sub fun c hc => Text.mem_of_mem_trim hc
          unsigned := hx.2 }
      obtain ⟨s', hs, hs'⟩ := h.add hl
      rw [hs]
      exact hs'

theorem Holding.steps (h : s.Holding []) (hx : ∀ x ∈ xs, x.Plain) :
    ∃ s', xs.foldlM PathStep.apply s = .ok s' ∧ s'.Holding (PathStep.added xs) := by
  induction xs using List.reverseRecOn with
  | nil => exact ⟨s, rfl, h⟩
  | append_singleton xs x ih =>
    obtain ⟨hxs, hx⟩ := List.forall_mem_append.1 hx
    obtain ⟨q, hq, hqh⟩ := ih hxs
    obtain ⟨s', hs, hs'⟩ := hqh.step (hx x (List.mem_singleton_self x))
    refine ⟨s', ?_, hs'⟩
    rw [List.foldlM_append, hq]
    show [x].foldlM PathStep.apply q = .ok s'
    rw [List.foldlM_cons, hs]
    rfl

theorem load_file {file : Option String} (h : load file = .ok s) : s.file = file := by
  cases file with
  | none => exact Except.ok.inj h ▸ rfl
  | some text =>
    cases hr : Ini.read text with
    | error e => simp [load, hr, Except.map] at h
    | ok f =>
      rw [load, hr] at h
      exact Except.ok.inj h ▸ rfl

/-- Settings without entries hold no paths. -/
theorem holding_empty {file : Option String} (h : load file = .ok s) (he : s.ini = .empty) : s.Holding [] where
  fits := load_fits h
  kept := by rw [reload, load_file h, h]
  option := by
    rw [get?, he]
    rfl
  each := nofun

/-- The paths are an ordered set that outlasts the file being read again: from an empty file on, they are those
that were added and are not blank, in the order in which they came first, and a path is taken exactly if it is
not blank and not there. -/
theorem require_paths_ordered {file : Option String} {s : Settings} (h : load file = .ok s)
    (he : s.ini = .empty) (xs : List PathStep) (hx : ∀ x ∈ xs, x.Plain) :
    ∃ s', xs.foldlM PathStep.apply s = .ok s' ∧ s'.requirePaths = PathStep.added xs ∧
      ∀ p, (s'.addRequirePath? p).isSome ↔ Text.trim p ≠ "" ∧ Text.trim p ∉ PathStep.added xs := by
  obtain ⟨s', hs, hh⟩ := (holding_empty h he).steps hx
  refine ⟨s', hs, hh.requirePaths_eq, fun p => ?_⟩
  rw [hh.addRequirePath?_eq, ← not_or]
  split
  · next hp => simp [hp]
  · next hp =>
    rw [set_eq reads_requirePaths.fits.1]
    simp [hp, Except.toOption]

/-- Paths with signs that mean something in the file, paths that are there already, and one that is blank. -/
def oddPaths : List PathStep := [.add "/opt/lua", .reload, .add " C:/lua = new ", .add "[old]", .reload,
  .add "/opt/lua ", .add "\t", .add "a # b", .add "[old]", .reload]

theorem odd_paths_ordered : load (some "") = .ok ⟨.empty, some ""⟩ ∧ (∀ x ∈ oddPaths, x.Plain) ∧
    ∃ s, oddPaths.foldlM PathStep.apply ⟨.empty, some ""⟩ = .ok s ∧
      s.requirePaths = ["/opt/lua", "C:/lua = new", "[old]", "a # b"] ∧
      ∀ p, (s.addRequirePath? p).isSome ↔ Text.trim p ≠ "" ∧ Text.trim p ∉ PathStep.added oddPaths := by
  have h : load (some "") = .ok ⟨.empty, some ""⟩ := rfl
  have hx : ∀ x ∈ oddPaths, x.Plain := by decide +kernel
  obtain ⟨s, hs, hp, ha⟩ := require_paths_ordered h rfl oddPaths hx
  exact ⟨h, hx, s, hs, hp.trans (by decide +kernel), ha⟩

end Settings

end Macros
