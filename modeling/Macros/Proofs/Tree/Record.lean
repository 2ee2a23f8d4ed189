import Macros.Tree.Record
import Mathlib.Data.List.Forall2
import Mathlib.Data.Set.List

/-!
Documents and their records. A document is read back from its record as it was. A record that was not written
by this library may leave fields out and hold odd values in others; what it is read as is written down in
normal form, and a record in normal form is written as it was read.
-/

namespace Macros.Record

open Value

/-- What a record is read as: the fields that are missing are filled in, and the loop settings of a macro are
taken from values of other kinds. -/
inductive Stores : Value → Document → Prop
  | leaf {fs : Table Value} {name : Value} {language : Language} {count : Int}
      (htype : fs.get? "type" = some (text "macro")) (hname : fs.get? "name" = some name)
      (hlanguage : (fs.get? "language").getD (text "native") = text language.label)
      (hcount : toInt ((fs.get? "craft_loop_count").getD (int 0)) = .ok count) :
      Stores (record fs) (.leaf name ⟨(fs.get? "contents").getD (text ""), language,
        ((fs.get? "craft_loop").getD (flag false)).truthy, count⟩)
  | folder {fs : Table Value} {name : Value} {items : List Value} {children : List Document}
      (htype : fs.get? "type" = some (text "folder")) (hname : fs.get? "name" = some name)
      (hitems : ((fs.get? "children").getD (list [])).parts? = some items)
      (hchildren : List.Forall₂ Stores items children) : Stores (record fs) (.folder name children)

/-- A record with all its fields, in order and of their own kinds. -/
inductive Normal : Value → Prop
  | leaf (name contents : Value) (language : Language) (craftLoop : Bool) (count : Int) :
      Normal (record [("type", text "macro"), ("name", name), ("contents", contents),
        ("language", text language.label), ("craft_loop", flag craftLoop),
        ("craft_loop_count", int count)])
  | folder (name : Value) {children : List Value} (normal : ∀ v ∈ children, Normal v) :
      Normal (record [("type", text "folder"), ("name", name), ("children", list children)])

/-! Reading what was written. -/

@[simp] theorem readLanguage_label (l : Language) : readLanguage (some (text l.label)) = .ok l := by
  cases l <;> rfl

mutual

@[simp] theorem decode_encode : (d : Document) → decode (encode d) = .ok d
  | .leaf name body => by
    simp [encode, decode, kind, readName, readBody, Table.get?, toInt, truthy, Except.map]
  | .folder name children => by
    simp [encode, decode, kind, readName, Table.get?, decodeChildren, decodeAll_encodeAll children,
      Except.map]

@[simp] theorem decodeAll_encodeAll : (ds : List Document) → decodeAll (encodeAll ds) = .ok ds
  | [] => rfl
  | d :: ds => by
    simp [encodeAll, decodeAll, decode_encode d, decodeAll_encodeAll ds, Except.map]

end

/-! Records in normal form are those that are written. -/

theorem encodeAll_eq_map (ds : List Document) : encodeAll ds = ds.map encode := by
  induction ds with
  | nil => rfl
  | cons d ds ih => rw [encodeAll, ih, List.map_cons]

mutual

theorem normal_encode : (d : Document) → Normal (encode d)
  | .leaf name body => .leaf name body.contents body.language body.craftLoop body.craftLoopCount
  | .folder name children => .folder name (normal_encodeAll children)

theorem normal_encodeAll : (ds : List Document) → ∀ v ∈ encodeAll ds, Normal v
  | [] => nofun
  | d :: ds => List.forall_mem_cons.2 ⟨normal_encode d, normal_encodeAll ds⟩

end

theorem Normal.exists_encode {v : Value} (h : Normal v) : ∃ d, encode d = v := by
  induction h with
  | leaf name contents language craftLoop count =>
    exact ⟨.leaf name ⟨contents, language, craftLoop, count⟩, rfl⟩
  | @folder name children _ ih =>
    have hall : children ∈ Set.range (List.map encode) := by
      rw [Set.range_list_map]
      exact ih
    obtain ⟨ds, rfl⟩ := hall
    exact ⟨.folder name ds, by rw [encode, encodeAll_eq_map]⟩

/-! What a record is read as. -/

theorem readLanguage_iff {v : Option Value} {l : Language} :
    readLanguage v = .ok l ↔ v.getD (text "native") = text l.label := by
  cases v with
  | none => cases l <;> simp [readLanguage, Language.label]
  | some v =>
    cases v with
    | text s => cases l <;> simp [readLanguage, Language.label] <;> grind
    | _ => simp [readLanguage]

/-- The word that a record has for its kind. -/
def Kind.label : Kind → String
  | folder => "folder"
  | leaf => "macro"

theorem kind_iff {fs : Table Value} {k : Kind} :
    kind fs = .ok k ↔ fs.get? "type" = some (text k.label) := by
  unfold kind
  cases fs.get? "type" with
  | none => simp
  | some v =>
    cases v with
    | text s => cases k <;> simp [Kind.label] <;> grind
    | _ => simp

theorem readName_iff {fs : Table Value} {name : Value} :
    readName fs = .ok name ↔ fs.get? "name" = some name := by
  unfold readName
  cases fs.get? "name" <;> simp

theorem readBody_iff {fs : Table Value} {body : Body} : readBody fs = .ok body ↔
    ∃ language count, (fs.get? "language").getD (text "native") = text language.label ∧
      toInt ((fs.get? "craft_loop_count").getD (int 0)) = .ok count ∧
      body = ⟨(fs.get? "contents").getD (text ""), language,
        ((fs.get? "craft_loop").getD (flag false)).truthy, count⟩ := by
  unfold readBody
  simp only [← readLanguage_iff]
  cases readLanguage (fs.get? "language") with
  | error e => simp
  | ok language =>
    cases toInt ((fs.get? "craft_loop_count").getD (int 0)) <;> simp [Except.map, eq_comm]

/-- What is in a text or a record is no record, so only the items of lists are read one by one. -/
theorem decodeChildren_eq (fs : Table Value) : decodeChildren fs =
    match ((fs.get? "children").getD (list [])).parts? with
    | none => .error (.misfit .wrongKind)
    | some items => decodeAll items := by
  induction fs with
  | nil => rfl
  | cons f fs ih =>
    obtain ⟨k, v⟩ := f
    unfold decodeChildren
    rw [Table.get?_cons]
    by_cases hk : k = "children"
    · rw [if_pos hk, if_pos hk.symm, Option.getD_some]
      cases v with
      | text s =>
        cases hs : s.toList <;> simp [parts?, hs, decodeAll, decode]
      | record gs => cases gs <;> simp [parts?, decodeAll, decode]
      | _ => simp [parts?]
    · rw [if_neg hk, if_neg (Ne.symm hk), ih]

theorem decodeChildren_iff {fs : Table Value} {ds : List Document} : decodeChildren fs = .ok ds ↔
    ∃ items, ((fs.get? "children").getD (list [])).parts? = some items ∧ decodeAll items = .ok ds := by
  rw [decodeChildren_eq]
  cases ((fs.get? "children").getD (list [])).parts? <;> simp

theorem decode_leaf_iff {fs : Table Value} {name : Value} {body : Body} :
    decode (record fs) = .ok (.leaf name body) ↔ fs.get? "type" = some (text Kind.leaf.label) ∧
      fs.get? "name" = some name ∧ readBody fs = .ok body := by
  rw [← kind_iff, ← readName_iff, decode]
  cases kind fs with
  | error e => simp
  | ok k =>
    cases readName fs with
    | error e => cases k <;> simp
    | ok n => cases k <;> cases readBody fs <;> cases decodeChildren fs <;> simp [Except.map]

theorem decode_folder_iff {fs : Table Value} {name : Value} {children : List Document} :
    decode (record fs) = .ok (.folder name children) ↔ fs.get? "type" = some (text Kind.folder.label) ∧
      fs.get? "name" = some name ∧ decodeChildren fs = .ok children := by
  rw [← kind_iff, ← readName_iff, decode]
  cases kind fs with
  | error e => simp
  | ok k =>
    cases readName fs with
    | error e => cases k <;> simp
    | ok n => cases k <;> cases readBody fs <;> cases decodeChildren fs <;> simp [Except.map]

mutual

/-- What is read goes down the document: the records of the children are those of its children. -/
theorem decode_iff : (d : Document) → (v : Value) → (decode v = .ok d ↔ Stores v d)
  | .leaf name body, record fs => by
    rw [decode_leaf_iff, readBody_iff]
    constructor
    · rintro ⟨ht, hn, language, count, hl, hc, rfl⟩
      exact .leaf ht hn hl hc
    · intro h
      cases h with
      | leaf ht hn hl hc => exact ⟨ht, hn, _, _, hl, hc, rfl⟩
  | .folder name children, record fs => by
    rw [decode_folder_iff, decodeChildren_iff]
    constructor
    · rintro ⟨ht, hn, items, hi, hall⟩
      exact .folder ht hn hi ((decodeAll_iff children items).1 hall)
    · intro h
      cases h with
      | folder ht hn hi hall => exact ⟨ht, hn, _, hi, (decodeAll_iff children _).2 hall⟩
  | _, null | _, flag _ | _, int _ | _, number _ | _, text _ | _, tuple _ | _, list _ =>
    iff_of_false nofun nofun

theorem decodeAll_iff : (ds : List Document) → (xs : List Value) →
    (decodeAll xs = .ok ds ↔ List.Forall₂ Stores xs ds)
  | ds, [] => by
    rw [List.forall₂_nil_left_iff, decodeAll, Except.ok.injEq, eq_comm]
  | [], x :: xs => by
    rw [decodeAll]
    cases decode x <;> cases decodeAll xs <;> simp [Except.map]
  | d :: ds, x :: xs => by
    rw [List.forall₂_cons, ← decode_iff d x, ← decodeAll_iff ds xs, decodeAll]
    cases decode x <;> cases decodeAll xs <;> simp [Except.map]

end

/-- A document is read back from its record as it was. A record is read as what it stores, if anything; the
record of that is in normal form, and it is the same record just if that was in normal form. -/
theorem decode_normalizes : (∀ d, decode (encode d) = .ok d) ∧ (∀ v d, decode v = .ok d ↔ Stores v d) ∧
    ∀ v d, decode v = .ok d →
      Normal (encode d) ∧ decode (encode d) = .ok d ∧ (encode d = v ↔ Normal v) := by
  refine ⟨decode_encode, fun v d => decode_iff d v, fun v d h => ?_⟩
  refine ⟨normal_encode d, decode_encode d, fun he => he ▸ normal_encode d, fun hn => ?_⟩
  obtain ⟨c, rfl⟩ := hn.exists_encode
  rw [decode_encode] at h
  rw [Except.ok.inj h]

/-- Fields are missing or odd, and there is one that is not known. -/
def odd : Value :=
  record [("name", number .nan), ("type", text "folder"), ("color", int 3), ("children", tuple [
    record [("type", text "macro"), ("name", text " "), ("craft_loop", text "no"),
      ("craft_loop_count", text " -1_2 ")],
    record [("craft_loop_count", flag true), ("craft_loop", list []), ("language", text "lua"),
      ("contents", null), ("name", int 7), ("type", text "macro")],
    record [("type", text "folder"), ("name", text "F"), ("children", text "")]])]

def oddDocument : Document :=
  .folder (number .nan) [.leaf (text " ") ⟨text "", .native, true, -12⟩,
    .leaf (int 7) ⟨null, .lua, false, 1⟩, .folder (text "F") []]

theorem odd_normalizes : decode odd = .ok oddDocument ∧ Normal (encode oddDocument) ∧
    decode (encode oddDocument) = .ok oddDocument ∧ encode oddDocument ≠ odd := by
  have h : decode odd = .ok oddDocument := by rfl
  obtain ⟨hn, hd, -⟩ := decode_normalizes.2.2 odd oddDocument h
  refine ⟨h, hn, hd, ?_⟩
  simp [encode, oddDocument, odd]

end Macros.Record
