import Macros.CraftLoop
import Macros.Failure
import Macros.Ini.File
import Macros.Limits
import Macros.Text.Path

/-!
The settings of the program: a settings file with the text last written to it, and what the
options mean. An option that is missing has a default; one that cannot be read is an error.
-/

namespace Macros

/-- Why an option cannot be used, or cannot be set. -/
inductive OptionError
  | notInteger (e : Numeral.IntegerError)
  | notNumber (text : String)
  | notFlag (text : String)
  | reservedSection (name : String)
  /-- Only texts can be written to a settings file. -/
  | notText
deriving DecidableEq

def OptionError.message : OptionError → String
  | notInteger e => e.message
  | notNumber s => "could not convert string to float: " ++ Text.quoted s
  | notFlag s => "Not a boolean: " ++ s
  | reservedSection s => "Invalid section name: " ++ Text.quoted s
  | notText => "option values must be strings"

def OptionError.kindName : OptionError → String
  | notText => "TypeError"
  | _ => "ValueError"

structure Settings where
  ini : Ini
  /-- The text on disk, if there is a file. -/
  file : Option String

namespace Settings

def fresh : Settings := ⟨.empty, none⟩

/-- Settings as they are read from a file; without a file they are empty. -/
def load (file : Option String) : Except IniError Settings :=
  match file with
  | none => .ok fresh
  | some text => (Ini.read text).map fun ini => ⟨ini, some text⟩

def save (s : Settings) : Settings := { s with file := some s.ini.write }

/-- The settings read again from what is on disk. -/
def reload (s : Settings) : Except IniError Settings := load s.file

/-- Sets an option, in memory and on disk. -/
def set (s : Settings) (sect key value : String) : Except OptionError Settings :=
  if sect = Ini.defaultSection then .error (.reservedSection sect)
  else .ok { s with ini := (s.ini.addSection sect).set sect key value }.save

/-- Sets an option to a value of any kind. When the value is no text, the section is made all the
same, but only in memory. -/
def assign (s : Settings) (sect key : String) : Value → Except OptionError Unit × Settings
  | .text value =>
    match s.set sect key value with
    | .ok changed => (.ok (), changed)
    | .error e => (.error e, s)
  | _ =>
    if sect = Ini.defaultSection then (.error (.reservedSection sect), s)
    else (.error .notText, { s with ini := s.ini.addSection sect })

def get? (s : Settings) (sect key : String) : Option String := s.ini.get? sect key

def readInteger (text : String) : Except OptionError Int :=
  (Numeral.readInteger text).mapError .notInteger

def readNumber (text : String) : Except OptionError Binary64 :=
  match Numeral.number? text with
  | some x => .ok x
  | none => .error (.notNumber text)

def readFlag (text : String) : Except OptionError Bool :=
  let word := Text.lower text
  if ["1", "yes", "true", "on"].contains word then .ok true
  else if ["0", "no", "false", "off"].contains word then .ok false
  else .error (.notFlag text)

/-- An option read by `f`, or its default. -/
def getWith {α : Type} (s : Settings) (f : String → Except OptionError α)
    (sect key : String) (fallback : α) : Except OptionError α :=
  match s.get? sect key with
  | some text => f text
  | none => .ok fallback

def getInteger (s : Settings) (sect key : String) (fallback : Int) : Except OptionError Int :=
  s.getWith readInteger sect key fallback

def getNumber (s : Settings) (sect key : String) (fallback : Binary64) :
    Except OptionError Binary64 :=
  s.getWith readNumber sect key fallback

def getFlag (s : Settings) (sect key : String) (fallback : Bool) : Except OptionError Bool :=
  s.getWith readFlag sect key fallback

def macrosDir (s : Settings) : String :=
  Text.normalPath ((s.get? "GENERAL" "macros_dir").getD "macros")

/-- How often an action is tried again, cut off at both ends. -/
def maxTimeoutRetries (s : Settings) : Except OptionError Nat :=
  (s.getInteger "TIMING" "max_timeout_retries" 0).map fun n =>
    (min Limits.maxTimeoutRetries n).toNat

def defaultWaitBudget (s : Settings) : Except OptionError Binary64 :=
  (s.getNumber "TIMING" "default_wait_budget" Limits.defaultWaitBudget).map
    Binary64.zero.max

def craftLoopEnabled (s : Settings) : Except OptionError Bool :=
  s.getFlag "CRAFT_LOOP" "enabled" false

def craftLoopTemplate (s : Settings) : String :=
  (s.get? "CRAFT_LOOP" "template").getD CraftLoop.defaultTemplate

/-- The option that says whether a kind of failure stops a macro; some kinds have none. -/
def stopKey? : FailureKind → Option String
  | .actionTimeout => some "action_timeout"
  | .itemNotFound => some "item_not_found"
  | .itemNotUsable => some "item_not_usable"
  | .targetNotFound => some "target_not_found"
  | .addonNotFound => some "addon_not_found"
  | .addonNotVisible => some "addon_not_visible"
  | .conditionNotMet => some "condition_not_met"
  | .macroNotFound => none
  | .unsupported => none

/-- Does a failure of this kind stop the macro? -/
def stopsOn (s : Settings) (kind : FailureKind) : Except OptionError Bool :=
  match stopKey? kind with
  | some key => s.getFlag "STOP_ON" key true
  | none => .ok false

/-- Does the outcome end the macro? -/
def isStopWorthy (s : Settings) (o : Outcome) : Except OptionError Bool :=
  if o.ok then .ok false
  else
    match o.failure with
    | some kind => s.stopsOn kind
    | none => .ok false

/-- The paths that scripts look for modules in: the lines of the option that are not blank. -/
def requirePaths (s : Settings) : List String :=
  ((Text.lines ((s.get? "LUA" "require_paths").getD "")).map Text.trim).filter (!·.isEmpty)

/-- Adds a path; none if it is blank or there already. -/
def addRequirePath? (s : Settings) (path : String) : Option Settings :=
  let p := Text.trim path
  if p.isEmpty || s.requirePaths.contains p then none
  else (s.set "LUA" "require_paths" ("\n".intercalate (s.requirePaths ++ [p]))).toOption

def normalChannel (s : Settings) : String := (s.get? "NOTIFY" "normal_channel").getD "echo"

def errorChannel (s : Settings) : String := (s.get? "NOTIFY" "error_channel").getD "error"

def loopEcho (s : Settings) : Except OptionError Bool := s.getFlag "NOTIFY" "loop_echo" false

/-- The user's aliases, each with the command that it stands for. -/
def aliases (s : Settings) : Table String :=
  match s.ini.items? "COMMANDS" with
  | some t => Table.putAll [] (t.map fun (k, v) => (Text.lower k, Text.lower (Text.trim v)))
  | none => []

end Settings

end Macros
