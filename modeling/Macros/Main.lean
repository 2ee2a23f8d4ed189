import Macros.CommandLine.Control
import Macros.Grammar.Builtin
import Macros.Notifier
import Macros.Scheduler.Advance
import Macros.Scheduler.KeyboardClient
import Macros.Tree.Directory

/-!
The program: carries out one command on macros that are given as files, and ticks until nothing is
running. The arguments are the files, then `--`, then the words of the command. Messages go to the
channels of `settings.ini`; keys are written out, one event a line.
-/

namespace Macros.Program

abbrev Run := Session KeyboardQueue Empty

def bridge : Bridge Empty := ⟨[], .absent⟩

def fileName (path : String) : String := ((Text.split '/' path).getLast?).getD path

def loadSettings : IO Settings := do
  let text ← try some <$> IO.FS.readFile "settings.ini" catch _ => pure none
  match Settings.load text with
  | .ok s => return s
  | .error _ => throw (IO.userError "settings.ini cannot be read")

def loadTree (paths : List String) : IO Tree := do
  let entries ← paths.mapM fun (path : String) => do
    return .file (fileName path) (← IO.FS.readFile path)
  match Tree.ofDirectory "macros" entries with
  | .ok t => return t
  | .error e => throw (IO.userError e.message)

def sinks : Notifier Bool := .create [("echo", false), ("error", true)] (some false)

/-- Writes a message to its channel; the sink says whether that is the one for errors. -/
def tell (s : Settings) (level : Level) (message : String) : IO Unit := do
  match sinks.delivery? s level.label with
  | some (toErrors, label) =>
    let line := "[" ++ label ++ "] " ++ message
    if toErrors then IO.eprintln line else IO.println line
  | none => return

def tellAll (s : Run) : IO Run := do
  for e in s.journal.reverse do
    match e with
    | .log level message => tell s.settings level message.plain
    | _ => pure ()
  return { s with journal := [] }

def millis : Binary64 → UInt32
  | .finite false u => UInt32.ofNat (u * 1000 / twoTo Binary64.unitBits)
  | _ => 0

def keyText : Key → String
  | .special name => name
  | .char text => text

def playAll (s : Run) : IO Run := do
  for e in s.client.toPlay do
    match e with
    | .press k => IO.println ("press " ++ keyText k)
    | .release k => IO.println ("release " ++ keyText k)
    | .pause t => IO.sleep (millis t)
  return { s with client := s.client.played }

/-- Writes out what has happened so far. -/
def settle (s : Run) : IO Run := do playAll (← tellAll s)

partial def drive (s : Run) : IO Run := do
  let s ← settle s
  if !s.isActive then return s
  match s.tick KeyboardQueue.client bridge with
  | (.error f, s) =>
    tell s.settings .error f.message
    settle s
  | (.ok _, s) =>
    IO.sleep (UInt32.ofNat Limits.tickInterval.toNat)
    drive s

def start (settings : Settings) (tree : Tree) (seed : Nat) : Run :=
  let registry := Registry.builtin.withAliases settings.aliases
  (Registry.builtin.ignoredAliases settings.aliases).foldl
    (fun s a => s.log .warning (Registry.ignoredMessage a))
    (Session.idle tree settings registry (.start seed))

def run (paths : List String) (words : List String) : IO Unit := do
  let settings ← loadSettings
  let tree ← loadTree paths
  let seed ← IO.rand 0 (KeyboardQueue.randomSteps - 1)
  let (reply, s) := (start settings tree seed).command bridge (" ".intercalate words)
  match reply with
  | .ok text => IO.println text
  | .error f => IO.eprintln f.message
  let s ← drive s
  let s : Run := s.shutdown
  discard (settle { s with client := s.client.releaseAll })

end Macros.Program

def main (args : List String) : IO Unit :=
  Macros.Program.run (args.takeWhile (· != "--")) ((args.dropWhile (· != "--")).drop 1)
