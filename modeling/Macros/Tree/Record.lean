import Macros.Number.Numeral
import Macros.Tree.Document

/-!
Records, the stored form of documents. Reading one fills in what is missing and takes the loop
settings of a macro from values of other kinds; names and contents stay as they are.
-/

namespace Macros

/-- Why a record is refused. -/
inductive RecordError
  | nameMissing
  | unknownType (shown : String)
  | unknownLanguage (shown : String)
  | count (e : Numeral.IntegerError)
  | nanCount
  | infiniteCount
  | misfit (m : Misfit)
deriving DecidableEq

namespace RecordError

def message : RecordError → String
  | nameMissing => Text.quoted "name"
  | unknownType s => "Unknown node record type: " ++ s
  | unknownLanguage s => s ++ " is not a valid Language"
  | count e => e.message
  | nanCount => "cannot convert float NaN to integer"
  | infiniteCount => "cannot convert float infinity to integer"
  | misfit m => m.message

def kindName : RecordError → String
  | nameMissing => "KeyError"
  | infiniteCount => "OverflowError"
  | misfit m => m.kindName
  | _ => "ValueError"

end RecordError

namespace Record

open Value

/-- The whole number that the value stands for; fractions are cut off. -/
def toInt : Value → Except RecordError Int
  | flag b => .ok (if b then 1 else 0)
  | int n => .ok n
  | number x =>
    match x.truncate? with
    | some n => .ok n
    | none => .error (if x = .nan then .nanCount else .infiniteCount)
  | text s => (Numeral.readInteger s).mapError .count
  | _ => .error (.misfit .wrongKind)

def readName (fs : Table Value) : Except RecordError Value :=
  match fs.get? "name" with
  | some v => .ok v
  | none => .error .nameMissing

def readLanguage : Option Value → Except RecordError Language
  | none => .ok .native
  | some (text s) =>
    if s = Language.native.label then .ok .native
    else if s = Language.lua.label then .ok .lua
    else .error (.unknownLanguage (Text.quoted s))
  | some v => .error (.unknownLanguage v.quoted)

def readBody (fs : Table Value) : Except RecordError Body :=
  match readLanguage (fs.get? "language") with
  | .error e => .error e
  | .ok language =>
    (toInt ((fs.get? "craft_loop_count").getD (int 0))).map fun count =>
      ⟨(fs.get? "contents").getD (text ""), language,
        ((fs.get? "craft_loop").getD (flag false)).truthy, count⟩

/-- What kind of node the record is of. -/
inductive Kind
  | folder
  | leaf

def kind (fs : Table Value) : Except RecordError Kind :=
  match (fs.get? "type").getD null with
  | text s =>
    if s = "folder" then .ok .folder
    else if s = "macro" then .ok .leaf
    else .error (.unknownType (Text.quoted s))
  | v => .error (.unknownType v.quoted)

mutual

/-- The document that a record stores. -/
def decode : Value → Except RecordError Document
  | record fs =>
    match kind fs with
    | .error e => .error e
    | .ok .leaf =>
      match readName fs with
      | .error e => .error e
      | .ok name => (readBody fs).map (.leaf name)
    | .ok .folder =>
      match readName fs with
      | .error e => .error e
      | .ok name => (decodeChildren fs).map (.folder name)
  | v => .error (.misfit (v.lacks "get"))

/-- The documents of the field `children`, which may be missing. What is in a text or a record is
no record. -/
def decodeChildren : List (String × Value) → Except RecordError (List Document)
  | [] => .ok []
  | (k, v) :: fs =>
    if k = "children" then
      match v with
      | list xs => decodeAll xs
      | tuple xs => decodeAll xs
      | v =>
        match v.parts? with
        | none => .error (.misfit .wrongKind)
        | some [] => .ok []
        | some (x :: _) => .error (.misfit (x.lacks "get"))
    else decodeChildren fs

def decodeAll : List Value → Except RecordError (List Document)
  | [] => .ok []
  | x :: xs =>
    match decode x with
    | .error e => .error e
    | .ok d => (decodeAll xs).map (d :: ·)

end

mutual

/-- The record of a document. -/
def encode : Document → Value
  | .leaf name body => record [
      ("type", text "macro"),
      ("name", name),
      ("contents", body.contents),
      ("language", text body.language.label),
      ("craft_loop", flag body.craftLoop),
      ("craft_loop_count", int body.craftLoopCount)]
  | .folder name children => record [
      ("type", text "folder"),
      ("name", name),
      ("children", list (encodeAll children))]

def encodeAll : List Document → List Value
  | [] => []
  | d :: ds => encode d :: encodeAll ds

end

end Record

end Macros
