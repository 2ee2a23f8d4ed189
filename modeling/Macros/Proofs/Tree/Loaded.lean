import Macros.Proofs.Tree.Grown
import Macros.Tree.Directory
import Mathlib.Data.List.Forall2
import Mathlib.Data.String.Basic

/-!
Loading a directory loses nothing. Every sub-directory becomes a folder and every file with a known suffix a
macro, each below the folder of its own directory and in order, under names that are all different. Only a
name that ends in a number with more digits than a numeral may have can keep a directory from being loaded,
and no file system has names of that length.
-/

namespace Macros

/-- The suffix of the files of a language. -/
def Language.suffix : Language → String
  | native => ".macro"
  | lua => ".lua"

namespace DirEntry

/-! The names of files. -/

/-- A file name is a stem, which is not empty, and the suffix of a language. -/
structure Suffixed (name stem : String) (l : Language) : Prop where
  eq : name = stem ++ l.suffix
  ne_empty : stem ≠ ""

theorem language?_iff {suffix : String} {l : Language} : language? suffix = some l ↔ suffix = l.suffix := by
  unfold language?
  cases l with
  | native => simp [Language.suffix]
  | lua =>
    simp only [Language.suffix]
    grind

theorem splitSuffix_append {stem ext : List Char} (hs : stem ≠ []) (he : ext ≠ []) (hp : '.' ∉ ext) :
    splitSuffix (String.ofList (stem ++ '.' :: ext)) = (String.ofList stem, String.ofList ('.' :: ext)) := by
  have hr : (String.ofList (stem ++ '.' :: ext)).toList.reverse = ext.reverse ++ '.' :: stem.reverse := by
    simp
  have hne : ∀ c ∈ ext.reverse, (c != '.') = true := fun c hc => by
    rw [bne_iff_ne]
    rintro rfl
    exact hp (List.mem_reverse.1 hc)
  unfold splitSuffix
  dsimp only
  rw [hr, List.takeWhile_append_of_pos hne, List.dropWhile_append_of_pos hne]
  simp [hs, he]

theorem splitSuffix_suffixed {name stem : String} {l : Language} (h : Suffixed name stem l) :
    splitSuffix name = (stem, l.suffix) := by
  have hstem : stem.toList ≠ [] := mt String.toList_eq_nil_iff.1 h.ne_empty
  obtain ⟨ext, hext, hne, hpoint⟩ : ∃ ext, l.suffix = String.ofList ('.' :: ext) ∧ ext ≠ [] ∧ '.' ∉ ext := by
    cases l with
    | native => exact ⟨"macro".toList, rfl, by decide, by decide⟩
    | lua => exact ⟨"lua".toList, rfl, by decide, by decide⟩
  have hname : name = String.ofList (stem.toList ++ '.' :: ext) := by
    rw [h.eq, hext, String.ofList_append, String.ofList_toList]
  rw [hname, splitSuffix_append hstem hne hpoint, hext, String.ofList_toList]

/-- A name is its stem and its suffix, and if it has a suffix, the stem is not empty. -/
theorem splitSuffix_cases (name : String) : (splitSuffix name).2 = "" ∨
    name = (splitSuffix name).1 ++ (splitSuffix name).2 ∧ (splitSuffix name).1 ≠ "" := by
  have hparts := List.takeWhile_append_dropWhile (p := (· != '.')) (l := name.toList.reverse)
  have hpoint := List.head?_dropWhile_not (· != '.') name.toList.reverse
  unfold splitSuffix
  dsimp only
  generalize name.toList.reverse.takeWhile (· != '.') = ext at hparts ⊢
  cases hr : name.toList.reverse.dropWhile (· != '.') with
  | nil => exact .inl rfl
  | cons c stem =>
    obtain rfl : c = '.' := by simpa [hr] using hpoint
    dsimp only
    split
    · exact .inl rfl
    · next hne =>
      have hname : name.toList = stem.reverse ++ '.' :: ext.reverse := by
        rw [← List.reverse_reverse name.toList, ← hparts, hr]
        simp
      refine .inr ⟨?_, ?_⟩
      · rw [← String.ofList_append, ← hname, String.ofList_toList]
      · simp only [Bool.or_eq_true, List.isEmpty_iff, not_or] at hne
        simpa using hne.2

theorem suffixed_of_language? {name : String} {l : Language}
    (h : language? (splitSuffix name).2 = some l) : Suffixed name (splitSuffix name).1 l := by
  rw [language?_iff] at h
  rcases splitSuffix_cases name with hnone | ⟨hname, hne⟩
  · rw [hnone] at h
    cases l <;> contradiction
  · rw [h] at hname
    exact ⟨hname, hne⟩

/-! What a directory is to be loaded as. -/

/-- A file that is no macro. -/
def IsOther : DirEntry → Prop
  | dir _ _ => False
  | file n _ => ∀ stem l, ¬Suffixed n stem l

/-- Sub-directories come before files, and those of one kind in the order of their names in small letters. -/
structure Before (a b : DirEntry) : Prop where
  kind : b.isFile = false → a.isFile = false
  name : a.isFile = b.isFile → ¬Text.lower b.name < Text.lower a.name

/-- What the name of a node is made of: the name of a directory, or the stem of a file. -/
def stem : DirEntry → String
  | dir n _ => n
  | file n _ => (splitSuffix n).1

/-- A node is what the entry is to be loaded as. For a directory that is a folder, with a child for each of its
entries but the other files, in order; for a file it is a macro with the text of the file. -/
inductive Shows (t : Tree) : DirEntry → NodeId → Prop
  | dir {name : String} {entries : List DirEntry} {m : NodeId} (folder : t.isFolder m)
      (sorted others : List DirEntry) (all : (sorted ++ others).Perm entries)
      (ordered : sorted.Pairwise Before) (hothers : ∀ e ∈ others, e.IsOther)
      (named : List.Forall₂ (fun e c => t.NamedAfter c e.stem) sorted (t.children m))
      (shown : List.Forall₂ (Shows t) sorted (t.children m)) : Shows t (.dir name entries) m
  | file {name text : String} {l : Language} {m : NodeId}
      (suffixed : Suffixed name (stem (.file name text)) l)
      (body : t.body? m = some (.ofContents (.text (Text.unifyBreaks text)) l)) :
      Shows t (.file name text) m

mutual

/-- The names that nodes are made of: those of the directories and the stems of the macros. -/
def names : DirEntry → List String
  | dir n es => n :: namesAll es
  | file n s => if (language? (splitSuffix n).2).isSome then [stem (file n s)] else []

def namesAll : List DirEntry → List String
  | [] => []
  | e :: es => names e ++ namesAll es

end

theorem namesAll_eq (es : List DirEntry) : namesAll es = es.flatMap names := by
  induction es with
  | nil => rfl
  | cons e es ih => rw [namesAll, ih, List.flatMap_cons]

mutual

/-- What passes from the entries of a directory to the directory holds of every entry. -/
theorem induction {P : DirEntry → Prop} (hdir : ∀ n es, (∀ e ∈ es, P e) → P (dir n es))
    (hfile : ∀ n s, P (file n s)) : (e : DirEntry) → P e
  | dir n es => hdir n es (inductionAll hdir hfile es)
  | file n s => hfile n s

theorem inductionAll {P : DirEntry → Prop} (hdir : ∀ n es, (∀ e ∈ es, P e) → P (dir n es))
    (hfile : ∀ n s, P (file n s)) : (es : List DirEntry) → ∀ e ∈ es, P e
  | [] => nofun
  | e :: es => List.forall_mem_cons.2 ⟨induction hdir hfile e, inductionAll hdir hfile es⟩

end

/-! The order. -/

theorem before_iff {a b : DirEntry} : inOrder a b ↔ Before a b := by
  unfold inOrder
  constructor
  · intro h
    split at h
    · next hk => exact ⟨fun hb => hk.trans hb, fun _ => by simpa using h⟩
    · next hk => exact ⟨fun hb => by simp [hb] at h, fun he => absurd he hk⟩
  · rintro ⟨hk, hn⟩
    split
    · next he => simpa using hn he
    · next he =>
      cases hb : b.isFile with
      | true => rfl
      | false => exact absurd ((hk hb).trans hb.symm) he

theorem Before.trans {a b c : DirEntry} (h : Before a b) (h' : Before b c) : Before a c := by
  refine ⟨fun hc => h.kind (h'.kind hc), fun hac hlt => ?_⟩
  have hab : a.isFile = b.isFile := by
    cases hb : b.isFile with
    | false => exact h.kind hb
    | true =>
      cases hc : c.isFile with
      | false => exact absurd (h'.kind hc) (by simp [hb])
      | true => exact hac.trans hc
  rcases lt_trichotomy (Text.lower b.name) (Text.lower c.name) with hbc | hbc | hbc
  · exact h.name hab (String.lt_trans hbc hlt)
  · exact h.name hab (hbc ▸ hlt)
  · exact h'.name (hab.symm.trans hac) hbc

theorem before_total (a b : DirEntry) : Before a b ∨ Before b a := by
  by_cases hk : a.isFile = b.isFile
  · rcases lt_or_ge (Text.lower b.name) (Text.lower a.name) with hlt | hle
    · exact .inr ⟨fun ha => hk ▸ ha, fun _ => not_lt_of_gt hlt⟩
    · exact .inl ⟨fun hb => hk ▸ hb, fun _ => not_lt_of_ge hle⟩
  · cases hb : b.isFile with
    | true => exact .inl ⟨fun hf => by simp [hb] at hf, fun he => absurd he hk⟩
    | false => exact .inr ⟨fun _ => hb, fun he => absurd he.symm hk⟩

theorem sorted_before (es : List DirEntry) : (es.mergeSort inOrder).Pairwise Before := by
  have htrans : ∀ a b c, inOrder a b → inOrder b c → inOrder a c := fun a b c hab hbc =>
    before_iff.2 ((before_iff.1 hab).trans (before_iff.1 hbc))
  have htotal : ∀ a b, inOrder a b || inOrder b a := fun a b => by
    rw [Bool.or_eq_true, before_iff, before_iff]
    exact before_total a b
  exact (List.pairwise_mergeSort htrans htotal es).imp before_iff.1

theorem arrangeAll_eq (es : List DirEntry) : arrangeAll es = es.map arrange := by
  induction es with
  | nil => rfl
  | cons e es ih => rw [arrangeAll, ih, List.map_cons]

/-- Entries are put in order by what they are and by their names, so it does not matter which of the two
happens first, that or putting in order what is below them. -/
theorem sort_arrangeAll (es : List DirEntry) :
    (arrangeAll es).mergeSort inOrder = (es.mergeSort inOrder).map arrange := by
  rw [arrangeAll_eq, List.map_mergeSort]
  intro a _ b _
  cases a <;> cases b <;> rfl

/-! Loading. -/

section

variable {t t' : Tree} {parent m : NodeId}

theorem forall₂_of_mem {α β : Type} {R S : α → β → Prop} {xs : List α} {ys : List β}
    (h : List.Forall₂ R xs ys) (hrs : ∀ x ∈ xs, ∀ y ∈ ys, R x y → S x y) : List.Forall₂ S xs ys := by
  induction h with
  | nil => exact .nil
  | @cons x y xs ys hxy _ ih =>
    refine .cons (hrs x List.mem_cons_self y List.mem_cons_self hxy) (ih fun a ha b hb => ?_)
    exact hrs a (List.mem_cons_of_mem x ha) b (List.mem_cons_of_mem y hb)

/-- What a node shows, it still shows when the tree has grown elsewhere. -/
theorem Shows.grow {e : DirEntry} (h : Shows t e m) (hkeep : ∀ k, t.Holds m k → t'.node? k = t.node? k)
    (huse : ∀ k s, t.InUse k s → t'.InUse k s) : Shows t' e m := by
  have hself := hkeep m .refl
  induction e using DirEntry.induction generalizing m with
  | hdir n es ih =>
    cases h with
    | dir folder sorted others all ordered hothers named shown =>
      have hfolder : t'.isFolder m = t.isFolder m := by rw [Tree.isFolder, hself, ← Tree.isFolder]
      have hchildren : t'.children m = t.children m := by rw [Tree.children, hself, ← Tree.children]
      have hname : ∀ c ∈ t.children m, t'.name c = t.name c := fun c hc => by
        rw [Tree.name, hkeep c (.single hc), ← Tree.name]
      refine .dir (hfolder ▸ folder) sorted others all ordered hothers ?_ ?_
      · rw [hchildren]
        exact forall₂_of_mem named fun e _ c hc hn => hn.grow (hname c hc) huse
      · rw [hchildren]
        refine forall₂_of_mem shown fun e he c hc hshow => ?_
        have hbelow : ∀ k, t.Holds c k → t'.node? k = t.node? k := fun k hk => hkeep k (.head hc hk)
        have hmem : e ∈ es := all.subset (List.mem_append_left others he)
        exact ih e hmem hshow hbelow (hbelow c .refl)
  | hfile n s =>
    cases h with
    | file suffixed body =>
      refine .file suffixed ?_
      rw [Tree.body?, hself, ← Tree.body?, body]

/-- The entry is a directory, or a file with a known suffix. -/
def isKept : DirEntry → Bool
  | dir _ _ => true
  | file n _ => (language? (splitSuffix n).2).isSome

theorem isOther_of_not_isKept {e : DirEntry} (h : e.isKept = false) : e.IsOther := by
  cases e with
  | dir n es => contradiction
  | file n s =>
    intro stem l hs
    rw [isKept, splitSuffix_suffixed hs, language?_iff.2 rfl] at h
    contradiction

/-- A folder shows a directory if its children show the entries that are kept, put in order. -/
theorem shows_dir (name : String) {es : List DirEntry} (hf : t.isFolder m)
    (named : List.Forall₂ (fun e c => t.NamedAfter c e.stem) ((es.mergeSort inOrder).filter isKept)
      (t.children m))
    (shown : List.Forall₂ (Shows t) ((es.mergeSort inOrder).filter isKept) (t.children m)) :
    Shows t (.dir name es) m := by
  have hall := List.filter_append_perm isKept (es.mergeSort inOrder)
  refine .dir hf _ _ (hall.trans (List.mergeSort_perm es inOrder)) ((sorted_before es).filter _) ?_
    named shown
  intro e he
  exact isOther_of_not_isKept (by simpa using (List.mem_filter.1 he).2)

/-- What comes of loading entries into a folder: a child for each of them that is kept, unless a number gets too
long that is counted on from one of their names. -/
inductive Loaded (t : Tree) (parent : NodeId) (es : List DirEntry) : Except StructuralError Tree → Prop
  | done {t' : Tree} {added : List NodeId} (stocked : t'.Stocked) (grown : Tree.Grown t t' parent added)
      (length : t'.nodes.length = t.nodes.length + (namesAll es).length)
      (named : List.Forall₂ (fun e c => t'.NamedAfter c e.stem) (es.filter isKept) added)
      (shown : List.Forall₂ (Shows t') (es.filter isKept) added) : Loaded t parent es (.ok t')
  | tooLong {e : Numeral.IntegerError} {raw : String} {n : Nat} (hraw : raw ∈ namesAll es)
      (hn : n < t.nodes.length + (namesAll es).length) (hlong : ¬FreeName.CountsOn (Text.trim raw) n) :
      Loaded t parent es (.error (.unnamed (.number e)))

/-- Entries may be loaded into a folder of a tree that only new nodes have come into. -/
structure Open (t : Tree) (parent : NodeId) : Prop where
  stocked : t.Stocked
  inside : parent ∈ t.flatten
  folder : t.isFolder parent

theorem Open.grown (h : Open t parent) {added : List NodeId} (hs : t'.Stocked)
    (hg : Tree.Grown t t' parent added) : Open t' parent :=
  ⟨hs, hg.inside h.inside, hg.isFolder_parent⟩

theorem Open.lt (h : Open t parent) : parent < t.nodes.length :=
  h.stocked.toGrounded.lt_of_mem_flatten h.inside

/-- A new folder is open for the entries of its directory. -/
theorem Open.joined (h : Open t parent) {raw s : String}
    (hj : Tree.Joined t t' parent raw (.folder (.text s) [])) : Open t' t.nodes.length := by
  refine ⟨hj.stocked, ?_, ?_⟩
  · have hin := hj.stocked.mem_walk.1 (hj.inside h.inside)
    refine hj.stocked.mem_walk.2 (hin.tail ?_)
    rw [Tree.Lists, hj.toGrown.children_parent]
    exact List.mem_append_right _ (List.mem_singleton_self _)
  · rw [Tree.isFolder, hj.made]
    rfl

theorem namesAll_singleton (e : DirEntry) : namesAll [e] = names e := by
  rw [namesAll, namesAll, List.append_nil]

theorem namesAll_perm {es fs : List DirEntry} (h : es.Perm fs) : (namesAll es).Perm (namesAll fs) := by
  rw [namesAll_eq, namesAll_eq]
  exact h.flatMap_right _

theorem Loaded.opens {es : List DirEntry} (h : Loaded t parent es (.ok t')) (ho : Open t parent) :
    Open t' parent := by
  cases h with
  | done stocked grown length named shown => exact ho.grown stocked grown

theorem length_namesAll_cons (e : DirEntry) (es : List DirEntry) :
    (namesAll (e :: es)).length = (namesAll [e]).length + (namesAll es).length := by
  simp [namesAll]

/-- If the first entry is not loaded, no later one is. -/
theorem Loaded.fails {e : DirEntry} {err : StructuralError} (h : Loaded t parent [e] (.error err))
    (es : List DirEntry) : Loaded t parent (e :: es) (.error err) := by
  have hlength := length_namesAll_cons e es
  cases h with
  | tooLong hraw hn hlong =>
    rw [namesAll_singleton] at hraw
    exact .tooLong (List.mem_append_left _ hraw) (by omega) hlong

/-- What the children show that come of the first entry, they still show when the others are loaded. -/
theorem Loaded.append {e : DirEntry} {es : List DirEntry} {r : Except StructuralError Tree}
    (h : Loaded t parent [e] (.ok t')) (ho : Open t parent) (h' : Loaded t' parent es r) :
    Loaded t parent (e :: es) r := by
  have hlength := length_namesAll_cons e es
  cases h with
  | @done _ added stocked grown length named shown =>
    cases h' with
    | tooLong hraw hn hlong =>
      exact .tooLong (List.mem_append_right _ hraw) (by omega) hlong
    | @done t'' more stocked' grown' length' named' shown' =>
      have hlist : ∀ c ∈ added, t'.Lists parent c := fun c hc => by
        rw [Tree.Lists, grown.children_parent]
        exact List.mem_append_right _ hc
      have huse : ∀ k s, t'.InUse k s → t''.InUse k s := fun k s => grown'.inUse stocked.toGrounded
      refine .done stocked' (grown.trans grown' ho.lt) (by omega) ?_ ?_
      · rw [← List.singleton_append, List.filter_append]
        refine List.rel_append (forall₂_of_mem named fun e _ c hc hn => ?_) named'
        exact hn.grow (grown'.name_eq (stocked.exist parent c (hlist c hc))) huse
      · rw [← List.singleton_append, List.filter_append]
        refine List.rel_append (forall₂_of_mem shown fun e _ c hc hshow => ?_) shown'
        exact hshow.grow (fun k hk => grown'.node?_below stocked.toGrounded (hlist c hc) hk) huse

theorem loadAll_loaded {es : List DirEntry} (ho : Open t parent)
    (hload : ∀ e ∈ es, ∀ t parent, Open t parent → Loaded t parent [e] (load t parent (arrange e))) :
    Loaded t parent es (loadAll t parent (es.map arrange)) := by
  induction es generalizing t with
  | nil => exact .done ho.stocked (.refl ho.folder) rfl .nil .nil
  | cons e es ih =>
    have hfirst := hload e List.mem_cons_self t parent ho
    rw [List.map_cons, loadAll]
    cases hr : load t parent (arrange e) with
    | error err =>
      rw [hr] at hfirst
      exact hfirst.fails es
    | ok t' =>
      rw [hr] at hfirst
      refine hfirst.append ho (ih (hfirst.opens ho) fun d hd => ?_)
      exact hload d (List.mem_cons_of_mem e hd)

/-- Names that are not blank. -/
def NotBlank (names : List String) : Prop := ∀ raw ∈ names, Text.trim raw ≠ ""

/-- A directory is loaded as a new folder, with its entries in order below it. -/
theorem load_dir {n : String} {es : List DirEntry} (ho : Open t parent) (hb : Text.trim n ≠ "")
    (hload : ∀ t parent, Open t parent → Loaded t parent (es.mergeSort inOrder)
      (loadAll t parent ((es.mergeSort inOrder).map arrange))) :
    Loaded t parent [dir n es] (load t parent (arrange (dir n es))) := by
  have hnames : namesAll [dir n es] = n :: namesAll es := by rw [namesAll_singleton, names]
  have hperm := List.mergeSort_perm es inOrder
  have hcount := (namesAll_perm hperm).length_eq
  rw [arrange, sort_arrangeAll, load]
  rcases ho.stocked.newFolder_cases ho.inside ho.folder hb with ⟨s, t', ha, hj⟩ | ⟨⟨e, he⟩, hc⟩
  · have ho' := ho.joined hj
    have hlength' := hj.length_eq
    have hsorted := hload t' t.nodes.length ho'
    simp only [ha]
    generalize loadAll t' t.nodes.length ((es.mergeSort inOrder).map arrange) = r at hsorted ⊢
    cases hsorted with
    | tooLong hraw hn hlong =>
      refine .tooLong ?_ ?_ hlong
      · rw [hnames]
        exact List.mem_cons_of_mem n ((namesAll_perm hperm).subset hraw)
      · rw [hnames, List.length_cons]
        omega
    | @done t'' added stocked grown length named shown =>
      have hchildren : t''.children t.nodes.length = added := by
        rw [grown.children_parent, Tree.children, hj.made]
        rfl
      have hnamed := hj.named.grow (grown.name_eq ho'.lt) fun k s => grown.inUse ho'.stocked.toGrounded
      refine .done stocked (hj.toGrown.below grown rfl ho.lt) ?_ (.cons hnamed .nil) (.cons ?_ .nil)
      · rw [hnames, List.length_cons]
        omega
      · exact shows_dir n grown.isFolder_parent (hchildren ▸ named) (hchildren ▸ shown)
  · simp only [he]
    refine .tooLong (hnames ▸ List.mem_cons_self) ?_ hc
    rw [hnames, List.length_cons]
    omega

theorem load_file {n s : String} (ho : Open t parent) (hb : NotBlank (names (file n s))) :
    Loaded t parent [file n s] (load t parent (arrange (file n s))) := by
  rw [arrange, load]
  cases hl : language? (splitSuffix n).2 with
  | none =>
    have hkept : isKept (file n s) = false := by rw [isKept, hl]; rfl
    refine .done ho.stocked (.refl ho.folder) ?_ ?_ ?_
    · simp [namesAll, names, hl]
    · simp [hkept]
    · simp [hkept]
  | some l =>
    have hkept : isKept (file n s) = true := by rw [isKept, hl]; rfl
    have hnames : namesAll [file n s] = [(splitSuffix n).1] := by simp [namesAll, names, stem, hl]
    have hb' : Text.trim (splitSuffix n).1 ≠ "" := hb _ (by simp [names, stem, hl])
    rcases ho.stocked.newLeaf_cases ho.inside ho.folder hb' (.text (Text.unifyBreaks s)) l with
      ⟨name, t', ha, hj⟩ | ⟨⟨e, he⟩, hc⟩
    · simp only [ha, Except.map]
      have hfilter : [file n s].filter isKept = [file n s] := by simp [hkept]
      refine .done hj.stocked hj.toGrown (by rw [hnames, hj.length_eq]; rfl) ?_ ?_
      · rw [hfilter]
        exact .cons hj.named .nil
      · rw [hfilter]
        refine .cons (.file (suffixed_of_language? hl) ?_) .nil
        rw [Tree.body?, hj.made]
    · simp only [he, Except.map]
      refine .tooLong (hnames ▸ List.mem_singleton_self _) ?_ hc
      rw [hnames]
      simp

/-- Whatever is in the tree already, an entry is loaded with all that is below it. -/
theorem load_loaded (e : DirEntry) (hb : NotBlank (names e)) :
    ∀ t parent, Open t parent → Loaded t parent [e] (load t parent (arrange e)) := by
  induction e using DirEntry.induction with
  | hdir n es ih =>
    intro t parent ho
    rw [names] at hb
    refine load_dir ho (hb n List.mem_cons_self) fun t parent ho => loadAll_loaded ho fun e he => ?_
    have hmem := (List.mergeSort_perm es inOrder).subset he
    refine ih e hmem fun raw hr => hb raw (List.mem_cons_of_mem n ?_)
    rw [namesAll_eq]
    exact List.mem_flatMap.2 ⟨e, hmem, hr⟩
  | hfile n s => exact fun t parent ho => load_file ho hb

end

/-- No name of a directory ends in a number that gets too long when it is counted on past the names of all
others. -/
def Countable (entries : List DirEntry) : Prop :=
  ∀ raw ∈ namesAll entries, FreeName.CountsOn (Text.trim raw) (namesAll entries).length

/-- So it is for the names of any file system: they are much shorter than a numeral may be. -/
theorem countable_of_length {entries : List DirEntry} {k : Nat} (hk : k < Numeral.maxDigits)
    (hl : ∀ raw ∈ namesAll entries, raw.length ≤ k) (hc : (namesAll entries).length ≤ 10 ^ k) :
    Countable entries := by
  intro raw hr
  refine FreeName.countsOn_of_length hk (Nat.le_trans ?_ (hl raw hr)) hc
  rw [Text.trim, String.length_ofList, Text.trimChars, ← String.length_toList]
  exact Nat.le_trans (Text.trimEndChars_prefix _).length_le (List.dropWhile_suffix _).length_le

end DirEntry

namespace Tree

/-- A tree displays a directory: each of its nodes has one place, its names are all different, and the root has
what is to be loaded below it. -/
structure Displays (t : Tree) (name : String) (entries : List DirEntry) : Prop where
  owner : t.SingleOwner
  distinct : t.NamesDistinct
  root : t.name t.root = .text (if name.isEmpty then "/" else name)
  shows : DirEntry.Shows t (.dir name entries) t.root

theorem flatten_ofName (name : String) : (ofName name).flatten = [0] :=
  walkTo_of_children (children_ofName name _) _

theorem open_ofName (name : String) : DirEntry.Open (ofName name) 0 where
  stocked :=
    { toSingle := single_ofName name
      distinct := fun m hm n hn hne => by
        rw [flatten_ofName, List.mem_singleton] at hm hn
        exact absurd (hm.trans hn.symm) hne
      texts := fun m hm => by
        rw [flatten_ofName, List.mem_singleton] at hm
        rw [hm]
        exact ⟨name, rfl⟩ }
  inside := by
    rw [flatten_ofName]
    exact List.mem_singleton_self 0
  folder := rfl

theorem ofDirectory_loaded (name : String) {entries : List DirEntry}
    (hb : DirEntry.NotBlank (DirEntry.namesAll entries)) :
    DirEntry.Loaded (ofName (if name.isEmpty then "/" else name)) 0
      (entries.mergeSort DirEntry.inOrder) (Tree.ofDirectory name entries) := by
  unfold Tree.ofDirectory
  dsimp only
  rw [DirEntry.sort_arrangeAll]
  refine DirEntry.loadAll_loaded (open_ofName _) fun e he => DirEntry.load_loaded e fun raw hr => hb raw ?_
  rw [DirEntry.namesAll_eq]
  exact List.mem_flatMap.2 ⟨e, (List.mergeSort_perm _ _).subset he, hr⟩

/-- A directory whose names are not blank is loaded as a tree that displays it. Nothing is in the way but a
number that gets too long. -/
theorem ofDirectory_displays (name : String) {entries : List DirEntry}
    (hb : DirEntry.NotBlank (DirEntry.namesAll entries)) :
    (DirEntry.Countable entries → ∃ t, Tree.ofDirectory name entries = .ok t) ∧
      (∀ t, Tree.ofDirectory name entries = .ok t → t.Displays name entries) ∧
      ∀ e, Tree.ofDirectory name entries = .error e → ∃ n, e = .unnamed (.number n) := by
  have hperm := List.mergeSort_perm entries DirEntry.inOrder
  have hnames := DirEntry.namesAll_perm hperm
  have hloaded := ofDirectory_loaded name hb
  generalize Tree.ofDirectory name entries = r at hloaded
  cases hloaded with
  | @done t added stocked grown length named shown =>
    refine ⟨fun _ => ⟨t, rfl⟩, ?_, nofun⟩
    rintro _ ⟨⟩
    have hroot : t.root = 0 := grown.root
    have hchildren : t.children 0 = added := grown.children_parent
    refine ⟨stocked.toSingle.singleOwner, stocked.distinct, ?_, ?_⟩
    · rw [hroot]
      exact grown.name_eq Nat.zero_lt_one
    · rw [hroot]
      exact DirEntry.shows_dir name grown.isFolder_parent (hchildren ▸ named) (hchildren ▸ shown)
  | @tooLong _ raw n hraw hn hlong =>
    have hone : (ofName (if name.isEmpty then "/" else name)).nodes.length = 1 := rfl
    have hlength := hnames.length_eq
    refine ⟨fun hc => ?_, nofun, ?_⟩
    · exact absurd ((hc raw (hnames.subset hraw)).mono (by omega)) hlong
    · rintro _ ⟨⟩
      exact ⟨_, rfl⟩

/-- Stems that are taken: by the root, by a directory, and by files that come before. -/
def library : List DirEntry :=
  [.file "Synth (1).lua" "", .dir "Synth" [.file "Synth.macro" "/ac A\r\n/ac B",
    .dir " lib " [.file "Synth.lua" "return", .file "notes.txt" ""]]]

theorem mergeSort_pair {α : Type} (le : α → α → Bool) (a b : α) :
    [a, b].mergeSort le = if le a b then [a, b] else [b, a] := by
  cases h : le a b <;> simp [List.mergeSort, h]

theorem library_displays : DirEntry.NotBlank (DirEntry.namesAll library) ∧
    DirEntry.Countable library ∧ ∃ t, Tree.ofDirectory "lib" library = .ok t ∧
      t.Displays "lib" library ∧ (t.flatten.map fun n => (t.name n).plain) =
        ["lib", "Synth", "lib (1)", "Synth (1)", "Synth (2)", "Synth (3)"] := by
  have hb : DirEntry.NotBlank (DirEntry.namesAll library) := by
    unfold DirEntry.NotBlank
    decide
  have hc : DirEntry.Countable library :=
    DirEntry.countable_of_length (show 9 < Numeral.maxDigits by decide) (by decide) (by decide)
  have hnames : ((Tree.ofDirectory "lib" library).toOption.map fun t =>
      t.flatten.map fun n => (t.name n).plain) = some
        ["lib", "Synth", "lib (1)", "Synth (1)", "Synth (2)", "Synth (3)"] := by
    simp only [Tree.ofDirectory, library, DirEntry.arrangeAll, DirEntry.arrange, mergeSort_pair]
    decide +kernel
  obtain ⟨t, ht⟩ := (ofDirectory_displays "lib" hb).1 hc
  rw [ht] at hnames
  exact ⟨hb, hc, t, ht, (ofDirectory_displays "lib" hb).2.1 t ht, Option.some.inj hnames⟩

/-- A sub-directory with the name of the directory itself is not loaded if there is no next name to try. -/
theorem ofDirectory_stuck {name : String} {e : Numeral.IntegerError} (hne : name ≠ "")
    (htrim : Text.trim name = name) (ha : FreeName.advance name = .error e) :
    Tree.ofDirectory name [.dir name []] = .error (.unnamed (.number e)) := by
  have hroot : (if name.isEmpty then "/" else name) = name := if_neg (mt String.isEmpty_iff.1 hne)
  have hflat := flatten_ofName name
  have huse : (ofName name).InUse none name := ⟨0, by simp [hflat], nofun, rfl⟩
  have hname : (ofName name).uniqueName (.text name) none = .error (.number e) := by
    refine uniqueName_error ((open_ofName name).stocked.comparable none) ?_
    rw [htrim]
    exact FreeName.firstFree_error (mem_inUse.2 huse) ha
  simp only [Tree.ofDirectory, DirEntry.arrangeAll, DirEntry.arrange, List.mergeSort_nil,
    List.mergeSort_singleton, DirEntry.loadAll, DirEntry.load, hroot, newFolder]
  rw [hname]

/-- The name of the directory itself is not made of anything: the root has it with its blanks. And there are
names that are too long to be counted on. -/
theorem padded_root_untrimmed : (∃ t, Tree.ofDirectory " lib " [] = .ok t ∧
    t.name t.root = .text " lib " ∧ ¬t.NamedAfter t.root " lib ") ∧
    Tree.ofDirectory overlong [.dir overlong []] =
      .error (.unnamed (.number (.tooManyDigits (Numeral.maxDigits + 1)))) := by
  have ht : Tree.ofDirectory " lib " [] = .ok (ofName " lib ") := by
    simp only [Tree.ofDirectory, DirEntry.arrangeAll, List.mergeSort_nil]
    rfl
  have hne : overlong ≠ "" := by
    intro he
    have hchars := overlong_toList
    rw [he] at hchars
    contradiction
  refine ⟨⟨_, ht, rfl, fun h => ?_⟩, ofDirectory_stuck hne trim_overlong advance_overlong⟩
  have htrim := h.trimmed (by decide) rfl
  exact absurd htrim (by decide)

end Tree

end Macros
