import Macros.Grammar.Tag
import Macros.Grammar.Registry

/-!
Reading macros. A line is blank, a comment, or a command word with an argument in which
tags stand anywhere; those the registry knows become modifiers and the others stay in the
argument.
-/

namespace Macros

inductive ParseErrorKind
  | unknownCommand
  | invalidModifierValue
  | malformedArguments
  | duplicateModifier
deriving DecidableEq

def ParseErrorKind.text : ParseErrorKind → String
  | unknownCommand => "unknown command"
  | invalidModifierValue => "invalid modifier value"
  | malformedArguments => "malformed arguments"
  | duplicateModifier => "duplicate modifier"

/-- The short name of a kind. -/
def ParseErrorKind.code : ParseErrorKind → String
  | unknownCommand => "UNKNOWN_COMMAND"
  | invalidModifierValue => "INVALID_MODIFIER_VALUE"
  | malformedArguments => "MALFORMED_ARGUMENTS"
  | duplicateModifier => "DUPLICATE_MODIFIER"

structure ParseError where
  kind : ParseErrorKind
  detail : String
  line : Int
deriving DecidableEq

def ParseError.message (e : ParseError) : String := e.kind.text ++ ": " ++ e.detail

namespace Line

/-- Lines that hold no instruction: blank ones and comments. -/
def isBlankOrComment (line : String) : Bool :=
  match Text.trimChars line.toList with
  | [] => true
  | c :: _ => c = '#'

/-- What the tags of an argument leave behind: the modifiers so far, and the text without
the tags taken, in reverse. -/
structure Taken where
  modifiers : Table Value
  rest : List Char

/-- Takes one piece; a tag taken leaves a space. -/
def takePiece (r : Registry) (line : Int) (t : Taken) :
    Tag.Piece → Except ParseError Taken
  | .plain c => .ok { t with rest := c :: t.rest }
  | .tag a =>
    match r.modifier? a.name with
    | none => .ok { t with rest := a.whole.toList.reverse ++ t.rest }
    | some spec =>
      if t.modifiers.has spec.name then
        .error ⟨.duplicateModifier, "<" ++ spec.name ++ "> given more than once", line⟩
      else
        match spec.grammar.read a.value with
        | .error e => .error ⟨.invalidModifierValue, a.whole ++ ": " ++ e.message, line⟩
        | .ok v => .ok ⟨t.modifiers.put spec.name v, ' ' :: t.rest⟩

/-- The modifiers of an argument, and its words with single spaces between them. -/
def takeModifiers (r : Registry) (line : Int) (s : List Char) :
    Except ParseError (Table Value × String) :=
  match (Tag.pieces s).foldlM (takePiece r line) ⟨[], []⟩ with
  | .error e => .error e
  | .ok t => .ok (t.modifiers,
      " ".intercalate ((Text.wordsChars t.rest.reverse).map String.ofList))

/-- The command that a first word names. -/
def readHead (r : Registry) (line : Int) (head : List Char) : Except ParseError CommandSpec :=
  match head with
  | '/' :: token =>
    match r.resolve (String.ofList token) with
    | some spec => .ok spec
    | none => .error
        ⟨.unknownCommand, Text.quoted (String.ofList head) ++ " is not a known command", line⟩
  | _ => .error
      ⟨.unknownCommand, Text.quoted (String.ofList head) ++ " is not a command", line⟩

/-- The instruction on a line, if there is one. -/
def read (r : Registry) (line : String) (num : Int) : Except ParseError (Option Instruction) :=
  if isBlankOrComment line then .ok none
  else
    let stripped := Text.trimChars line.toList
    let (head, rest) := Text.nextWord stripped
    match readHead r num head with
    | .error e => .error e
    | .ok spec =>
      match takeModifiers r num rest with
      | .error e => .error e
      | .ok (modifiers, rawArgs) =>
        match spec.grammar.read rawArgs with
        | .error e => .error
            ⟨.malformedArguments, String.ofList head ++ ": " ++ e.message, num⟩
        | .ok args => .ok (some
            ⟨spec.name, rawArgs, args, modifiers, String.ofList stripped, num⟩)

/-- The instructions of lines that are numbered from `num` on. -/
def readFrom (r : Registry) (num : Int) : List String → Except ParseError (List Instruction)
  | [] => .ok []
  | l :: ls =>
    match read r l num with
    | .error e => .error e
    | .ok none => readFrom r (num + 1) ls
    | .ok (some i) => (readFrom r (num + 1) ls).map (i :: ·)

/-- The instructions of a macro; the first bad line refuses it. -/
def readAll (r : Registry) (text : String) : Except ParseError (List Instruction) :=
  readFrom r 0 (Text.lines text)

end Line

end Macros
