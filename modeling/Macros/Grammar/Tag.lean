/-!
Tags in a text: `<name>` or `<name.value>`, where the name has ASCII letters and
underscores and the value anything but angle brackets. They are found from left to right and do
not overlap.
-/

namespace Macros

structure Tag where
  name : String
  value : Option String
deriving DecidableEq

namespace Tag

def isNameChar (c : Char) : Bool := c.isAlpha || c = '_'

def isValueChar (c : Char) : Bool := c != '<' && c != '>'

/-- The text of a tag. -/
def whole (a : Tag) : String :=
  match a.value with
  | none => "<" ++ a.name ++ ">"
  | some v => "<" ++ a.name ++ "." ++ v ++ ">"

/-- What follows the name: an optional point and value, and the bracket that closes. -/
def readValue? : List Char → Option (Option String × List Char)
  | '>' :: r => some (none, r)
  | '.' :: r =>
    match r.dropWhile isValueChar with
    | '>' :: r' => some (some (String.ofList (r.takeWhile isValueChar)), r')
    | _ => none
  | _ => none

/-- A tag at the start of a text, and the text after it. -/
def read? : List Char → Option (Tag × List Char)
  | '<' :: s =>
    if (s.takeWhile isNameChar).isEmpty then none
    else (readValue? (s.dropWhile isNameChar)).map fun (v, r) =>
      (⟨String.ofList (s.takeWhile isNameChar), v⟩, r)
  | _ => none

theorem readValue?_length {s : List Char} {v : Option String} {r : List Char}
    (h : readValue? s = some (v, r)) : r.length < s.length := by
  unfold readValue? at h
  split at h
  · simp_all
  · split at h
    · rename_i t _ r' hr
      have : (t.dropWhile isValueChar).length ≤ t.length := (List.dropWhile_suffix _).length_le
      simp_all
      omega
    · simp at h
  · simp at h

theorem read?_length {s : List Char} {a : Tag} {r : List Char}
    (h : read? s = some (a, r)) : r.length < s.length := by
  unfold read? at h
  split at h
  · rename_i t
    split at h
    · simp at h
    · obtain ⟨⟨v, r'⟩, hv, he⟩ := Option.map_eq_some_iff.1 h
      have h1 := readValue?_length hv
      have h2 : (t.dropWhile isNameChar).length ≤ t.length := (List.dropWhile_suffix _).length_le
      simp only [Prod.mk.injEq] at he
      simp only [List.length_cons]
      rw [← he.2]
      omega
  · simp at h

/-- A piece of a text: a tag, or a character outside of all tags. -/
inductive Piece
  | plain (c : Char)
  | tag (t : Tag)

def pieces (s : List Char) : List Piece :=
  match _h : read? s with
  | some (a, r) => .tag a :: pieces r
  | none =>
    match s with
    | [] => []
    | c :: s => .plain c :: pieces s
termination_by s.length
decreasing_by
  · exact read?_length _h
  · simp

/-- All tags of a text. -/
def findAll (s : String) : List Tag :=
  (pieces s.toList).filterMap fun
    | .tag t => some t
    | .plain _ => none

/-- The signs that a pattern would take for its own. -/
def sigils : List String := [".", "+", "*", "?", "|", "^", "$", "/", "<", ">"]

/-- A sigil with a backslash in front, anything else as it is. -/
def escapeSigil (key : String) : String := if sigils.contains key then "\\" ++ key else key

end Tag

end Macros
