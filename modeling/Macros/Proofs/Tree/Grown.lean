import Macros.Proofs.Tree.Conserved
import Macros.Proofs.Tree.Variants

/-!
How a tree grows whose nodes are named by texts, all different. A new node that is named by the search for a
free name always comes in, whatever there is already, and nothing else changes but the children of its folder.
-/

namespace Macros

namespace FreeName

variable {name : String} {count m : Nat}

/-- The number that a name ends in, or zero, is not too long and does not get too long when it is counted on
`count` times. -/
def CountsOn (name : String) (count : Nat) : Prop :=
  count < 10 ^ Numeral.maxDigits ∧ ∀ stem digits, Numbered name stem digits →
    digits.length ≤ Numeral.maxDigits ∧ value digits + count < 10 ^ Numeral.maxDigits

theorem CountsOn.mono (h : CountsOn name count) (hm : m ≤ count) : CountsOn name m := by
  refine ⟨Nat.lt_of_le_of_lt hm h.1, fun stem digits hn => ?_⟩
  obtain ⟨hl, hv⟩ := h.2 stem digits hn
  exact ⟨hl, by omega⟩

theorem CountsOn.short (h : CountsOn name count) (hm : m ≤ count) : Short (variant name m) := by
  cases m with
  | zero => exact fun stem digits hn => (h.2 stem digits hn).1
  | succ j =>
    rw [short_variant_succ]
    by_cases hn : ∃ stem digits, Numbered name stem digits
    · obtain ⟨stem, digits, hn⟩ := hn
      have hv := (h.2 stem digits hn).2
      rw [hn.base]
      dsimp only
      omega
    · have hbase := base_of_not_numbered fun stem digits hd => hn ⟨stem, digits, hd⟩
      have hc := h.1
      rw [hbase]
      dsimp only
      omega

/-- There is one row of names to try. -/
theorem Variants.eq_variant {s : Nat → String} (h : Variants name s) (j : Nat) : s j = variant name j := by
  have h' := variants_variant name
  cases j with
  | zero => rw [h.first, h'.first]
  | succ j =>
    by_cases hn : ∃ stem digits, Numbered name stem digits
    · obtain ⟨stem, digits, hn⟩ := hn
      rw [h.counted stem digits hn _ j.succ_pos, h'.counted stem digits hn _ j.succ_pos]
    · have hplain : ∀ stem digits, ¬Numbered name stem digits := fun stem digits hd => hn ⟨stem, digits, hd⟩
      rw [h.plain hplain _ j.succ_pos, h'.plain hplain _ j.succ_pos]

/-- A name of `k` characters ends in a number of no more digits, so it can be counted on as often as there
are names of digits of that length. -/
theorem countsOn_of_length {k : Nat} (hk : k < Numeral.maxDigits) (hl : name.length ≤ k)
    (hc : count ≤ 10 ^ k) : CountsOn name count := by
  have hten : 10 ^ k + 10 ^ k < 10 ^ Numeral.maxDigits := by
    have hle : 10 ^ (k + 1) ≤ 10 ^ Numeral.maxDigits := Nat.pow_le_pow_right (by decide) hk
    have hpos : 0 < 10 ^ k := Nat.pow_pos (by decide)
    rw [Nat.pow_succ] at hle
    omega
  refine ⟨by omega, fun stem digits hn => ?_⟩
  have hlength : digits.length ≤ k := by
    have h := congrArg String.length hn.eq
    simp only [numbered, String.length_append, String.length_ofList] at h
    omega
  have hvalue : value digits < 10 ^ k := by
    refine Nat.lt_of_lt_of_le (Numeral.ofDigits_lt fun d hd => ?_) (Nat.pow_le_pow_right (by decide)
      (Nat.le_trans (List.length_filterMap_le _ _) hlength))
    obtain ⟨c, -, hc⟩ := List.mem_filterMap.1 hd
    exact Numeral.digitValue?_lt hc
  omega

end FreeName

namespace Tree

variable {t u t' : Tree} {c m n parent : NodeId} {raw : String}

/-! Growing. -/

/-- A folder has got more children behind those that it had. Of the nodes that there were, no other has
changed, and all that were in the tree still are. -/
structure Grown (t t' : Tree) (parent : NodeId) (added : List NodeId) : Prop where
  root : t'.root = t.root
  length : t.nodes.length ≤ t'.nodes.length
  others : ∀ m < t.nodes.length, m ≠ parent → t'.node? m = t.node? m
  folder : t'.node? parent = some (.folder (t.name parent) (t.children parent ++ added))
  inside : t.flatten ⊆ t'.flatten

namespace Grown

variable {ms ns : List NodeId}

theorem refl (hf : t.isFolder parent) : Grown t t parent [] where
  root := rfl
  length := Nat.le_refl _
  others _ _ _ := rfl
  folder := by
    unfold isFolder at hf
    rw [List.append_nil, name, children]
    cases hn : t.node? parent with
    | none => simp [hn] at hf
    | some node =>
      cases node with
      | leaf => simp [hn, Node.isFolder] at hf
      | folder => rfl
  inside := List.Subset.refl _

theorem children_parent (h : Grown t t' parent ms) : t'.children parent = t.children parent ++ ms := by
  rw [children, h.folder]
  rfl

theorem isFolder_parent (h : Grown t t' parent ms) : t'.isFolder parent := by
  rw [isFolder, h.folder]
  rfl

theorem name_eq (h : Grown t t' parent ms) (hm : m < t.nodes.length) : t'.name m = t.name m := by
  by_cases hp : m = parent
  · rw [hp, name, h.folder]
    rfl
  · rw [name, h.others m hm hp, ← name]

theorem trans (h : Grown t u parent ms) (h' : Grown u t' parent ns) (hp : parent < t.nodes.length) :
    Grown t t' parent (ms ++ ns) where
  root := h'.root.trans h.root
  length := Nat.le_trans h.length h'.length
  others m hm hne := (h'.others m (Nat.lt_of_lt_of_le hm h.length) hne).trans (h.others m hm hne)
  folder := by rw [h'.folder, h.name_eq hp, h.children_parent, List.append_assoc]
  inside := List.Subset.trans h.inside h'.inside

/-- What comes below a new node changes nothing beside it. -/
theorem below (h : Grown t u parent [c]) (h' : Grown u t' c ns) (hc : c = t.nodes.length)
    (hp : parent < t.nodes.length) : Grown t t' parent [c] where
  root := h'.root.trans h.root
  length := Nat.le_trans h.length h'.length
  others m hm hne := by
    rw [h'.others m (Nat.lt_of_lt_of_le hm h.length) (hc ▸ Nat.ne_of_lt hm), h.others m hm hne]
  folder := by
    rw [h'.others parent (Nat.lt_of_lt_of_le hp h.length) (hc ▸ Nat.ne_of_lt hp), h.folder]
  inside := List.Subset.trans h.inside h'.inside

theorem inUse (h : Grown t t' parent ms) (hg : t.Grounded) {except : Option NodeId} {s : String}
    (hs : t.InUse except s) : t'.InUse except s := by
  obtain ⟨m, hm, hne, he⟩ := hs
  exact ⟨m, h.inside hm, hne, (h.name_eq (hg.lt_of_mem_flatten hm)).trans he⟩

/-- The children that the folder had, and all below them, are as they were. -/
theorem node?_below (h : Grown t t' parent ms) (hg : t.Grounded) (hl : t.Lists parent c)
    (hm : t.Holds c m) : t'.node? m = t.node? m := by
  refine h.others m ?_ ?_
  · rcases Relation.ReflTransGen.cases_tail hm with rfl | ⟨p, -, hp⟩
    · exact hg.exist parent m hl
    · exact hg.exist p m hp
  · rintro rfl
    exact hg.acyclic m (.head' hl hm)

end Grown

/-! A new node at the end of a folder. -/

/-- The tree with a new node as the last child of a folder. -/
def place (t : Tree) (parent : NodeId) (node : Node) : Tree :=
  (t.alloc node).1.setChildren parent ((t.alloc node).1.children parent ++ [t.nodes.length])

theorem length_place (parent : NodeId) (node : Node) :
    (t.place parent node).nodes.length = t.nodes.length + 1 := by
  rw [place, length_setChildren]
  simp [alloc]

theorem node?_place (hp : parent < t.nodes.length) (node : Node) (m : NodeId) :
    (t.place parent node).node? m =
      if m = parent then some (.folder (t.name parent) (t.children parent ++ [t.nodes.length]))
      else if m = t.nodes.length then some node else t.node? m := by
  have hlt := Nat.lt_trans hp (lt_length_alloc node)
  rw [place, setChildren, node?_setNode hlt, name_alloc node hp, children_alloc,
    if_neg (Nat.ne_of_lt hp), node?_alloc]

theorem grown_place (hp : parent < t.nodes.length) (node : Node)
    (hin : t.flatten ⊆ (t.place parent node).flatten) :
    Grown t (t.place parent node) parent [t.nodes.length] where
  root := rfl
  length := by
    rw [length_place]
    exact Nat.le_succ _
  others m hm hne := by rw [node?_place hp, if_neg hne, if_neg (Nat.ne_of_lt hm)]
  folder := by rw [node?_place hp, if_pos rfl]
  inside := hin

/-! Trees that only new nodes have come into. -/

/-- The name of a node is made of `raw`: it is the trimmed text, or one counted on from it past others that
nodes of the tree have. -/
def NamedAfter (t : Tree) (n : NodeId) (raw : String) : Prop :=
  ∃ s k, FreeName.Variants (Text.trim raw) s ∧ t.name n = .text (s k) ∧
    ∀ j < k, t.InUse (some n) (s j)

theorem NamedAfter.grow (h : t.NamedAfter n raw) (hn : t'.name n = t.name n)
    (huse : ∀ k s, t.InUse k s → t'.InUse k s) : t'.NamedAfter n raw := by
  obtain ⟨s, k, hs, he, hp⟩ := h
  exact ⟨s, k, hs, hn.trans he, fun j hj => huse _ _ (hp j hj)⟩

/-- A name that is made of a text has no blanks around it. -/
theorem NamedAfter.trimmed (h : t.NamedAfter n raw) (hb : Text.trim raw ≠ "") {name : String}
    (hn : t.name n = .text name) : Text.trim name = name := by
  obtain ⟨s, k, hs, he, -⟩ := h
  obtain rfl : s k = name := by simpa [he] using hn
  rw [hs.eq_variant]
  exact (FreeName.trimmed_variant (Text.trimmed_trim raw) hb k).trim_eq

/-- Every node has one place in the tree and a text for a name, which no other node has. -/
structure Stocked (t : Tree) : Prop extends t.Single where
  distinct : t.NamesDistinct
  texts : ∀ m ∈ t.flatten, ∃ s, t.name m = .text s

/-- A new node has come into the tree, as the last child of a folder and with a name made of `raw`. -/
structure Joined (t t' : Tree) (parent : NodeId) (raw : String) (node : Node) : Prop
    extends Grown t t' parent [t.nodes.length] where
  stocked : t'.Stocked
  made : t'.node? t.nodes.length = some node
  named : t'.NamedAfter t.nodes.length raw
  length_eq : t'.nodes.length = t.nodes.length + 1

theorem FirstUnused.le_length {except : Option NodeId} {s : Nat → String} (hs : Function.Injective s)
    (h : t.FirstUnused except s m) : m ≤ t.flatten.length := by
  have hnodup : ((List.range m).map s).Nodup := List.nodup_range.map hs
  have hsub : (List.range m).map s ⊆
      FreeName.texts ((t.flatten.filter (some · != except)).map t.name) := by
    intro name hn
    obtain ⟨j, hj, rfl⟩ := List.mem_map.1 hn
    exact mem_inUse.2 (h.passed j (List.mem_range.1 hj))
  have hle := (hnodup.subperm hsub).length_le
  rw [List.length_map, List.length_range] at hle
  refine Nat.le_trans hle (Nat.le_trans (List.length_filterMap_le _ _) ?_)
  rw [List.length_map]
  exact List.length_filter_le _ _

theorem Single.length_flatten_le (h : t.Single) : t.flatten.length ≤ t.nodes.length := by
  have hsub : t.flatten ⊆ List.range t.nodes.length := fun m hm =>
    List.mem_range.2 (h.toGrounded.lt_of_mem_flatten hm)
  have hle := (h.nodup.subperm hsub).length_le
  rwa [List.length_range] at hle

namespace Stocked

variable (h : t.Stocked)
include h

theorem comparable (except : Option NodeId) : t.Comparable except := by
  intro m hm _
  obtain ⟨s, hs⟩ := h.texts m hm
  rw [hs]
  rfl

/-- The name that a new node gets, unless a number gets too long. -/
theorem uniqueName_cases (hb : Text.trim raw ≠ "") :
    (∃ k, t.FirstUnused none (FreeName.variant (Text.trim raw)) k ∧
      t.uniqueName (.text raw) none = .ok (FreeName.variant (Text.trim raw) k)) ∨
    (∃ e, t.uniqueName (.text raw) none = .error (.number e)) ∧
      ¬FreeName.CountsOn (Text.trim raw) t.nodes.length := by
  obtain ⟨k, hk⟩ := exists_firstUnused t none (Text.trim raw)
  have hok := hk.uniqueName_isOk hb
  cases hf : FreeName.firstFree
      (FreeName.texts ((t.flatten.filter (some · != none)).map t.name)) (Text.trim raw) with
  | ok free =>
    have hgiven := uniqueName_eq_ok.2 ⟨h.comparable none, free, rfl, hf⟩
    have he := ((hok _).1 hgiven).1
    exact .inl ⟨k, hk, he ▸ hgiven⟩
  | error e =>
    have herror := uniqueName_error (h.comparable none) hf
    refine .inr ⟨⟨e, herror⟩, fun hc => ?_⟩
    have hle : k ≤ t.nodes.length :=
      Nat.le_trans (hk.le_length (FreeName.variant_injective _)) h.toSingle.length_flatten_le
    have hgiven := (hok _).2
      ⟨rfl, h.comparable none, fun _ j hj => hc.short (Nat.le_trans hj hle)⟩
    rw [herror] at hgiven
    contradiction

/-- Nothing speaks against a new node whose name no other has. -/
theorem checkInsert_alloc (hp : parent ∈ t.flatten) {node : Node} (hc : node.children = [])
    {name : String} (hn : node.name = .text name) (hfree : ¬t.InUse none name) :
    (t.alloc node).1.checkInsert parent t.nodes.length = .ok () := by
  have hnone : ∀ c ∈ node.children, c < t.nodes.length := by simp [hc]
  have hflat := flatten_alloc h.toGrounded hnone
  have hwalk : (t.alloc node).1.walk t.nodes.length = [t.nodes.length] := by
    rw [(h.toGrounded.alloc hnone).walk_eq, children_alloc, if_pos rfl, hc]
    rfl
  have hlt : ∀ m ∈ t.flatten, m < t.nodes.length := fun m hm => h.toGrounded.lt_of_mem_flatten hm
  have hnew : (t.alloc node).1.name t.nodes.length = .text name := by
    rw [Tree.name, node?_alloc, if_pos rfl, ← hn]
    rfl
  have hold : (t.alloc node).1.contains t.nodes.length = false := by
    rw [contains, hflat]
    simpa using fun hm => Nat.lt_irrefl _ (hlt _ hm)
  have hcomparable : FreeName.comparable (t.flatten.map (t.alloc node).1.name) =
      .ok (t.flatten.map (t.alloc node).1.name) := by
    refine if_pos ?_
    simp only [List.all_map, List.all_eq_true]
    intro m hm
    obtain ⟨s, hs⟩ := h.texts m hm
    rw [Function.comp_apply, name_alloc node (hlt m hm), hs]
    rfl
  have hapart : t.flatten.any ((t.alloc node).1.namedAlike t.nodes.length) = false := by
    rw [List.any_eq_false]
    intro m hm
    have hne : t.nodes.length ≠ m := Nat.ne_of_gt (hlt m hm)
    rw [namedAlike, hnew, name_alloc node (hlt m hm), decide_eq_false hne, Bool.false_or,
      Value.text_same]
    exact fun he => hfree ⟨m, hm, Option.some_ne_none m, he⟩
  have hin : (t.alloc node).1.contains parent := by
    rw [contains, hflat]
    simpa using hp
  have hbelow : parent ≠ t.nodes.length := Nat.ne_of_lt (hlt parent hp)
  simp [checkInsert, hin, hold, hwalk, hbelow, hflat, hcomparable, checkNames, hnew, hapart,
    Value.isMember]

theorem addNew_place (hp : parent ∈ t.flatten) (hf : t.isFolder parent) {node : Node}
    (hc : node.children = []) {name : String} (hn : node.name = .text name)
    (hfree : ¬t.InUse none name) :
    t.addNew parent node = .ok (t.place parent node, t.nodes.length) := by
  have hcheck := h.checkInsert_alloc hp hc hn hfree
  have hfolder : (t.alloc node).1.isFolder parent := by
    rwa [isFolder, node?_alloc, if_neg (Nat.ne_of_lt (h.toGrounded.lt_of_mem_flatten hp)), ← isFolder]
  have hadd : (t.alloc node).1.addChild parent t.nodes.length none = .ok (t.place parent node) := by
    rw [addChild, hcheck]
    simp [hfolder, place]
  unfold addNew
  dsimp only
  rw [show (t.alloc node).2 = t.nodes.length from rfl, hadd]
  rfl

/-- A new node comes into the tree if its name is the first free one. -/
theorem addNew_joined (hp : parent ∈ t.flatten) (hf : t.isFolder parent) (node : Node)
    (hc : node.children = []) {k : Nat} (hk : t.FirstUnused none (FreeName.variant (Text.trim raw)) k)
    (hn : node.name = .text (FreeName.variant (Text.trim raw) k)) :
    ∃ t', t.addNew parent node = .ok (t', t.nodes.length) ∧ Joined t t' parent raw node := by
  have hlt := fun {m} (hm : m ∈ t.flatten) => h.toGrounded.lt_of_mem_flatten hm
  have hadd := h.addNew_place hp hf hc hn hk.unused
  have hperm := addNew_perm h.toSingle hc hadd
  obtain ⟨hg, he⟩ := addNew_edited h.toGrounded h.nodup hc hadd
  have hgrown := grown_place (hlt hp) node fun m hm => hperm.mem_iff.2 (List.mem_append_left _ hm)
  have hmade : (t.place parent node).node? t.nodes.length = some node := by
    rw [node?_place (hlt hp), if_neg (Nat.ne_of_gt (hlt hp)), if_pos rfl]
  have hname : (t.place parent node).name t.nodes.length =
      .text (FreeName.variant (Text.trim raw) k) := by
    rw [name, hmade, ← hn]
    rfl
  refine ⟨t.place parent node, hadd, hgrown, ⟨⟨hg, he.nodup h.nodup⟩, he.distinct h.distinct, ?_⟩,
    hmade, ⟨_, k, FreeName.variants_variant _, hname, ?_⟩, length_place parent node⟩
  · intro m hm
    rcases List.mem_append.1 (hperm.mem_iff.1 hm) with hm | hm
    · obtain ⟨s, hs⟩ := h.texts m hm
      exact ⟨s, (hgrown.name_eq (hlt hm)).trans hs⟩
    · rw [List.mem_singleton.1 hm]
      exact ⟨_, hname⟩
  · intro j hj
    obtain ⟨m, hm, -, hs⟩ := hk.passed j hj
    refine ⟨m, hgrown.inside hm, ?_, (hgrown.name_eq (hlt hm)).trans hs⟩
    exact fun he => Nat.ne_of_lt (hlt hm) (Option.some.inj he)

/-- A new folder comes into the tree, unless a number gets too long. -/
theorem newFolder_cases (hp : parent ∈ t.flatten) (hf : t.isFolder parent) (hb : Text.trim raw ≠ "") :
    (∃ s t', t.newFolder (some parent) (.text raw) = .ok (t', t.nodes.length) ∧
      Joined t t' parent raw (.folder (.text s) [])) ∨
    (∃ e, t.newFolder (some parent) (.text raw) = .error (.unnamed (.number e))) ∧
      ¬FreeName.CountsOn (Text.trim raw) t.nodes.length := by
  unfold newFolder
  rcases h.uniqueName_cases hb with ⟨k, hk, hs⟩ | ⟨⟨e, he⟩, hc⟩
  · obtain ⟨t', ha, hj⟩ := h.addNew_joined hp hf (.folder (.text _) []) rfl hk rfl
    exact .inl ⟨_, t', by rw [hs]; exact ha, hj⟩
  · exact .inr ⟨⟨e, by rw [he]⟩, hc⟩

/-- A new macro comes into the tree, unless a number gets too long. -/
theorem newLeaf_cases (hp : parent ∈ t.flatten) (hf : t.isFolder parent) (hb : Text.trim raw ≠ "")
    (contents : Value) (language : Language) :
    (∃ s t', t.newLeaf (some parent) (.text raw) contents language = .ok (t', t.nodes.length) ∧
      Joined t t' parent raw (.leaf (.text s) (.ofContents contents language))) ∨
    (∃ e, t.newLeaf (some parent) (.text raw) contents language = .error (.unnamed (.number e))) ∧
      ¬FreeName.CountsOn (Text.trim raw) t.nodes.length := by
  unfold newLeaf
  rcases h.uniqueName_cases hb with ⟨k, hk, hs⟩ | ⟨⟨e, he⟩, hc⟩
  · obtain ⟨t', ha, hj⟩ :=
      h.addNew_joined hp hf (.leaf (.text _) (.ofContents contents language)) rfl hk rfl
    exact .inl ⟨_, t', by rw [hs]; exact ha, hj⟩
  · exact .inr ⟨⟨e, by rw [he]⟩, hc⟩

end Stocked

end Tree

end Macros
