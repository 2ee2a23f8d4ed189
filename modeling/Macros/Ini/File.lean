import Macros.Table
import Macros.Text.Blank
import Macros.Text.Case

/-!
Settings files. A file has sections of `key = value` lines; a value goes on over the lines below
it that are indented deeper, and over blank lines; a line that begins with `#` or `;` is a
comment. What the section `DEFAULT` holds shows through in every section.
-/

namespace Macros

structure Ini where
  defaults : Table String
  sections : Table (Table String)
deriving DecidableEq

/-- Why a file is refused. -/
inductive IniError
  | missingHeader
  | duplicateSection (name : String)
  | duplicateOption (sect key : String)
  | badLine
deriving DecidableEq

def IniError.kindName : IniError → String
  | missingHeader => "MissingSectionHeaderError"
  | duplicateSection _ => "DuplicateSectionError"
  | duplicateOption _ _ => "DuplicateOptionError"
  | badLine => "ParsingError"

namespace Ini

def empty : Ini := ⟨[], []⟩

def defaultSection : String := "DEFAULT"

/-- Keys are in small letters. -/
def keyOf (key : String) : String := Text.lower key

/-- The value of a key; the section must be there. -/
def get? (f : Ini) (sect key : String) : Option String :=
  match f.sections.get? sect with
  | some t => ((t.get? (keyOf key)).or (f.defaults.get? (keyOf key)))
  | none => if sect = defaultSection then f.defaults.get? (keyOf key) else none

/-- The entries of a section, those of `DEFAULT` first; none if it is not there. -/
def items? (f : Ini) (sect : String) : Option (Table String) :=
  (f.sections.get? sect).map f.defaults.putAll

/-- Adds the section unless it is there. -/
def addSection (f : Ini) (sect : String) : Ini :=
  if f.sections.has sect then f else { f with sections := f.sections.put sect [] }

/-- Sets a key of a section that is there; the section without a name stands for `DEFAULT`. -/
def set (f : Ini) (sect key value : String) : Ini :=
  if sect.isEmpty then { f with defaults := f.defaults.put (keyOf key) value }
  else
    match f.sections.get? sect with
    | some t => { f with sections := f.sections.put sect (t.put (keyOf key) value) }
    | none => f

/-! Writing. -/

/-- The lines of a value after the first are indented by a tab. -/
def writeValue (value : String) : List Char :=
  value.toList.flatMap fun c => if c = '\n' then ['\n', '\t'] else [c]

def writeEntry (e : String × String) : List Char :=
  e.1.toList ++ ' ' :: '=' :: ' ' :: writeValue e.2 ++ ['\n']

def writeSection (name : String) (t : Table String) : List Char :=
  '[' :: name.toList ++ ']' :: '\n' :: t.flatMap writeEntry ++ ['\n']

/-- The text of a file: `DEFAULT` first if it has entries, then the sections. -/
def write (f : Ini) : String :=
  String.ofList
    ((if f.defaults.isEmpty then [] else writeSection defaultSection f.defaults)
      ++ f.sections.flatMap fun (name, t) => writeSection name t)

/-! Reading. -/

/-- What a line is, taken by itself. -/
inductive LineKind
  | blank
  | comment
  | content (indent : Nat) (body : List Char)

def lineKind (line : List Char) : LineKind :=
  match Text.trimChars line with
  | [] => .blank
  | c :: body =>
    if c = '#' || c = ';' then .comment
    else .content (line.takeWhile Text.isBlank).length (c :: body)

/-- The name between the first bracket and the last one that closes; it has a character. -/
def header? : List Char → Option String
  | '[' :: r =>
    match (r.reverse.dropWhile (· != ']')).drop 1 with
    | [] => none
    | name => some (String.ofList name.reverse)
  | _ => none

def isDelimiter (c : Char) : Bool := c = '=' || c = ':'

/-- Key and value of an entry, cut at its first delimiter. -/
def entry? (body : List Char) : Option (String × String) :=
  match body.dropWhile (!isDelimiter ·) with
  | [] => none
  | _ :: r => some
      (String.ofList (Text.trimEndChars (body.takeWhile (!isDelimiter ·))),
        String.ofList (Text.trimChars r))

/-- A file that is being read. Values are kept as their lines; `sect` and `key` say what the next
line may go on with, `indent` how deep the line of the key stands. -/
structure Reader where
  defaults : Table (List String)
  sections : Table (Table (List String))
  sect : Option String
  key : Option String
  indent : Nat
  seen : List (String × String)
  bad : Bool

namespace Reader

def start : Reader := ⟨[], [], none, none, 0, [], false⟩

/-- Changes the entries of a section. -/
def update (r : Reader) (sect : String) (f : Table (List String) → Table (List String)) : Reader :=
  if sect = defaultSection then { r with defaults := f r.defaults }
  else { r with sections := r.sections.put sect (f ((r.sections.get? sect).getD [])) }

/-- The section and the key whose value the next line may go on with. -/
def open? (r : Reader) : Option (String × String) :=
  match r.sect, r.key with
  | some s, some k => if k.isEmpty then none else some (s, k)
  | _, _ => none

/-- One more line for a value. -/
def goOn (r : Reader) (sect key line : String) : Reader :=
  r.update sect fun t => t.put key ((t.get? key).getD [] ++ [line])

def openSection (r : Reader) (name : String) : Except IniError Reader :=
  if name = defaultSection then .ok { r with sect := some name, key := none }
  else if r.sections.has name then .error (.duplicateSection name)
  else .ok { r with sections := r.sections.put name [], sect := some name, key := none }

def addEntry (r : Reader) (sect key value : String) : Except IniError Reader :=
  let k := keyOf key
  if r.seen.contains (sect, k) then .error (.duplicateOption sect k)
  else .ok { (r.update sect fun t => t.put k [value]) with
    key := some k
    seen := (sect, k) :: r.seen
    bad := r.bad || key.isEmpty }

def step (r : Reader) (line : List Char) : Except IniError Reader :=
  match lineKind line with
  | .comment => .ok r
  | .blank =>
    match r.open? with
    | some (s, k) => .ok (r.goOn s k "")
    | none => .ok r
  | .content indent body =>
    let deeper := decide (r.indent < indent)
    match r.open?, deeper with
    | some (s, k), true => .ok (r.goOn s k (String.ofList body))
    | _, _ =>
      let r := { r with indent := indent }
      match header? body with
      | some name => r.openSection name
      | none =>
        match r.sect with
        | none => .error .missingHeader
        | some s =>
          match entry? body with
          | some (key, value) => r.addEntry s key value
          | none => .ok { r with bad := true }

/-- The lines of a value as one text, blanks at its end dropped. -/
def join (lines : List String) : String :=
  String.ofList (Text.trimEndChars ("\n".intercalate lines).toList)

def finish (r : Reader) : Except IniError Ini :=
  if r.bad then .error .badLine
  else .ok ⟨r.defaults.map fun (k, v) => (k, join v),
    r.sections.map fun (s, t) => (s, t.map fun (k, v) => (k, join v))⟩

end Reader

/-- The lines of a file; what follows the last break is a line if it is not empty. -/
def fileLines (s : List Char) : List (List Char) :=
  let ls := Text.splitChars '\n' (Text.unifyBreaksChars s)
  if ls.getLast? = some [] then ls.dropLast else ls

def read (text : String) : Except IniError Ini :=
  match (fileLines text.toList).foldlM Reader.step Reader.start with
  | .error e => .error e
  | .ok r => r.finish

end Ini

end Macros
