import Macros.Grammar.Argument
import Macros.Text.Case

/-! The grammars of tag values, and how a value is written back. -/

namespace Macros

/-- Which values a tag takes. -/
inductive ModifierGrammar
  | wait
  | unconfirmed
  | echo
  | maxWait
  | condition
  | index
deriving DecidableEq

namespace ModifierGrammar

def readFlag : Option String → Except GrammarError Value
  | none => .ok (.flag true)
  | some s => if s.isEmpty then .ok (.flag true) else .error (.valueGiven s)

def readWait : Option String → Except GrammarError Span
  | none => .error .waitMissing
  | some s => Span.read s

/-- A number of seconds above zero. -/
def readMaxWait (value : Option String) : Except GrammarError Binary64 :=
  match Numeral.number? (value.getD "") with
  | none => .error (.notSeconds value)
  | some x => if x.le .zero then .error .notPositive else .ok x

/-- Names between commas, in small letters; none may be empty or a bare `!`. -/
def readCondition (value : Option String) : Except GrammarError (List String) :=
  let names := (Text.split ',' (value.getD "")).map fun part => Text.lower (Text.trim part)
  if names.any fun n => n.isEmpty || n == "!" then .error (.notConditions value) else .ok names

/-- A position, counted from one. -/
def readIndex (value : Option String) : Except GrammarError Int :=
  match Numeral.integer? (value.getD "") with
  | none => .error (.notIndex value)
  | some n => if n < 1 then .error .indexBelowOne else .ok n

def read : ModifierGrammar → Option String → Except GrammarError Value
  | wait, v => (readWait v).map Span.toValue
  | unconfirmed, v => readFlag v
  | echo, v => readFlag v
  | maxWait, v => (readMaxWait v).map .number
  | condition, v => (readCondition v).map fun names => .tuple (names.map .text)
  | index, v => (readIndex v).map .int

/-- A tag with its value. -/
def tagText (name value : String) : String :=
  "<" ++ name ++ "." ++ value ++ ">"

def renderWait (v : Value) : Except Misfit String :=
  match v.pair with
  | .error e => .error e
  | .ok (low, high) =>
    match low.brief with
    | .error e => .error e
    | .ok a =>
      if low.same high then .ok (tagText "wait" a)
      else high.brief.map fun b => tagText "wait" (a ++ "-" ++ b)

/-- The texts of a list of texts. -/
def textOf : Value → Except Misfit String
  | .text s => .ok s
  | _ => .error .wrongKind

def renderCondition (v : Value) : Except Misfit String :=
  match v.parts? with
  | none => .error .wrongKind
  | some xs => (xs.mapM textOf).map fun names => tagText "condition" (",".intercalate names)

def render : ModifierGrammar → Value → Except Misfit String
  | wait, v => renderWait v
  | unconfirmed, _ => .ok "<unsafe>"
  | echo, _ => .ok "<echo>"
  | maxWait, v => v.brief.map (tagText "maxwait")
  | condition, v => renderCondition v
  | index, v => .ok (tagText "index" v.plain)

end ModifierGrammar

end Macros
