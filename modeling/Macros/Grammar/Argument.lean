import Macros.Grammar.Error
import Macros.Number.Numeral
import Macros.Text.Blank
import Macros.Value

/-! The grammars of command arguments. -/

namespace Macros

/-- A range of seconds, of which a wait picks one. -/
structure Span where
  low : Binary64
  high : Binary64
deriving DecidableEq

namespace Span

def toValue (s : Span) : Value := .tuple [.number s.low, .number s.high]

/-- The text before the first minus, and the text after it if there is one. -/
def cut (s : List Char) : List Char × Option (List Char) :=
  match s.dropWhile (· != '-') with
  | _ :: r => (s.takeWhile (· != '-'), some r)
  | [] => (s, none)

/-- Reads `N` or `N-M` seconds. -/
def read (raw : String) : Except GrammarError Span :=
  let text := Text.trim raw
  if text.isEmpty then .error .durationMissing
  else
    let (front, back) := cut text.toList
    match Numeral.number? (String.ofList front) with
    | none => .error (.notDuration text)
    | some low =>
      match back with
      | none => check text low low
      | some r =>
        match Numeral.number? (String.ofList r) with
        | none => .error (.notDuration text)
        | some high => check text low high
where
  check (text : String) (low high : Binary64) : Except GrammarError Span :=
    if low.lt .zero || high.lt low then .error (.badRange text) else .ok ⟨low, high⟩

end Span

/-- A text without the pair of quotes around it. -/
def unquote (raw : String) : String :=
  let text := Text.trimChars raw.toList
  match text with
  | q :: r =>
    if (q = '"' || q = '\'') && r.getLast? = some q then
      String.ofList (Text.trimChars r.dropLast)
    else String.ofList text
  | [] => ""

/-- A name, with or without quotes, that is not blank. -/
def readName (raw : String) : Except GrammarError String :=
  let name := unquote raw
  if name.isEmpty then .error .nameMissing else .ok name

/-- A count that may be missing. -/
def readCount (raw : String) : Except GrammarError (Option Int) :=
  let text := Text.trim raw
  if text.isEmpty then .ok none
  else
    match Numeral.integer? text with
    | none => .error (.notCount text)
    | some n => if n < 0 then .error (.negativeCount n) else .ok (some n)

/-- A key or a combination of keys without spaces. -/
def readKey (raw : String) : Except GrammarError String :=
  let text := Text.trim raw
  if text.isEmpty || text.toList.contains ' ' then .error (.notOneKey text) else .ok text

/-- Which grammar the argument of a command has. -/
inductive ArgumentGrammar
  | name
  | text
  | duration
  | count
  | key
deriving DecidableEq

def ArgumentGrammar.read : ArgumentGrammar → String → Except GrammarError Value
  | name, raw => (readName raw).map .text
  | text, raw => .ok (.text (Text.trim raw))
  | duration, raw => (Span.read raw).map Span.toValue
  | count, raw => (readCount raw).map fun
    | some n => .int n
    | none => .null
  | key, raw => (readKey raw).map .text

end Macros
