import Macros.Table
import Macros.Text.Blank
import Macros.Text.Case
import Macros.Text.Digit
import Macros.Text.Quoted

/-!
Keys and combinations of keys. A key is a special one or a character; names may be written in
any case, and several names can mean the same key.
-/

namespace Macros

inductive Key
  | special (name : String)
  | char (text : String)
deriving DecidableEq

/-- A name in a combination that means no key. -/
inductive KeyError
  | unknown (name : String)
deriving DecidableEq

def KeyError.message : KeyError → String
  | unknown n => "Unknown key: " ++ Text.quoted n

namespace Key

def specialNames : Table String := [
  ("CTRL", "ctrl"), ("CONTROL", "ctrl"), ("CTRL_L", "ctrl_l"), ("CTRL_R", "ctrl_r"),
  ("SHIFT", "shift"), ("SHIFT_L", "shift_l"), ("SHIFT_R", "shift_r"),
  ("ALT", "alt"), ("MENU", "alt"), ("ALT_L", "alt_l"), ("ALT_R", "alt_r"),
  ("WIN", "cmd"), ("SUPER", "cmd"),
  ("ENTER", "enter"), ("RETURN", "enter"), ("SPACE", "space"),
  ("BACKSPACE", "backspace"), ("BACK", "backspace"), ("TAB", "tab"),
  ("ESC", "esc"), ("ESCAPE", "esc"), ("DELETE", "delete"),
  ("HOME", "home"), ("END", "end"),
  ("PAGEUP", "page_up"), ("PRIOR", "page_up"), ("PAGEDOWN", "page_down"), ("NEXT", "page_down"),
  ("UP", "up"), ("DOWN", "down"), ("LEFT", "left"), ("RIGHT", "right"), ("INSERT", "insert"),
  ("F1", "f1"), ("F2", "f2"), ("F3", "f3"), ("F4", "f4"), ("F5", "f5"), ("F6", "f6"),
  ("F7", "f7"), ("F8", "f8"), ("F9", "f9"), ("F10", "f10"), ("F11", "f11"), ("F12", "f12")]

/-- The key of a character, which is the small letter. -/
def ofChar (c : Char) : Key := char (String.ofList (Text.lowerChars [c]))

/-- The key that a name means. -/
def parse? (name : String) : Option Key :=
  let upper := Text.upperChars name.toList
  match specialNames.get? (String.ofList upper) with
  | some s => some (special s)
  | none =>
    match upper, name.toList with
    | ['K', 'E', 'Y', '_', c], _ => some (ofChar c)
    | ['N', 'U', 'M', 'P', 'A', 'D', d], _ =>
      if Text.isDigit d then some (char (String.ofList [d])) else none
    | _, [c] => some (ofChar c)
    | _, _ => none

def parseName (name : String) : Except KeyError Key :=
  match parse? name with
  | some k => .ok k
  | none => .error (.unknown name)

/-- The keys of a combination, joined by plus signs. -/
def parseCombo (combo : String) : Except KeyError (List Key) :=
  (Text.split '+' combo).mapM fun part => parseName (Text.trim part)

end Key

end Macros
