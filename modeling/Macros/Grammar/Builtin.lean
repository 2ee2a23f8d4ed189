import Macros.Grammar.Registry

/-! The commands and tags that every registry has, and the user's aliases on top. -/

namespace Macros

def builtinCommands : List CommandSpec := [
  ⟨"action", ["action", "ac"], "Execute an action and wait for the server to respond.", .name,
    ["/ac Groundwork", "/ac \"Tricks of the Trade\" <wait.2>", "/ac Observe <unsafe>"]⟩,
  ⟨"wait", ["wait"], "Wait a number of seconds, or a random time within a range.", .duration,
    ["/wait 1", "/wait 1.5-3"]⟩,
  ⟨"loop", ["loop"],
    "Loop back to the start of the macro, N more times or until stopped.", .count,
    ["/loop", "/loop 5", "/loop 5 <echo>"]⟩,
  ⟨"echo", ["echo"], "Print a message to the notification channel.", .text,
    ["/echo Done crafting"]⟩,
  ⟨"target", ["target"], "Target an entity by name.", .name,
    ["/target Eirikur", "/target Moyce <index.2>"]⟩,
  ⟨"item", ["item"], "Use an inventory item by name.", .name, ["/item Calamari Ripieni"]⟩,
  ⟨"waitaddon", ["waitaddon"], "Wait until a UI addon exists and is visible.", .name,
    ["/waitaddon RecipeNote <maxwait.5>"]⟩,
  ⟨"send", ["send"], "Press and release a key or key combo.", .key,
    ["/send NUMPAD0", "/send CONTROL+MENU+SHIFT+NUMPAD0"]⟩,
  ⟨"hold", ["hold"], "Press and keep holding a key or key combo.", .key, ["/hold SHIFT"]⟩,
  ⟨"release", ["release"], "Release a key or key combo held by /hold.", .key,
    ["/release SHIFT"]⟩,
  ⟨"click", ["click"], "Click a named UI element.", .name, ["/click synthesize"]⟩,
  ⟨"require", ["require"], "Wait until the character has a status effect.", .name,
    ["/require \"Well Fed\" <maxwait.10>"]⟩,
  ⟨"runmacro", ["runmacro"], "Start another macro by name; this one resumes when it ends.",
    .name, ["/runmacro \"Repair gear\""]⟩]

def builtinModifiers : List ModifierSpec := [
  ⟨"wait", "Wait N seconds (or a random time in N-M) after the command.", .wait,
    ["/ac Groundwork <wait.3>", "/ac Observe <wait.1.5-2.5>"]⟩,
  ⟨"unsafe", "Do not wait for the server to confirm the action.", .unconfirmed,
    ["/ac Groundwork <unsafe>"]⟩,
  ⟨"echo", "Echo what the command did.", .echo, ["/loop 5 <echo>"]⟩,
  ⟨"maxwait", "Override how long the command may wait for a result.", .maxWait,
    ["/waitaddon RecipeNote <maxwait.10>"]⟩,
  ⟨"condition", "Only run the command while the current condition matches; '!' negates.",
    .condition,
    ["/ac Intensive Synthesis <condition.good,excellent>", "/ac Observe <condition.!poor>"]⟩,
  ⟨"index", "Pick the N-th match when several share a name.", .index,
    ["/target Moyce <index.2>"]⟩]

namespace Registry

/-- The registry of the built-in commands and tags. -/
def builtin : Registry where
  commands := builtinCommands.map fun c => (c.name, c)
  aliases := builtinCommands.flatMap fun c => c.aliases.map fun a => (a, c.name)
  modifiers := builtinModifiers.map fun m => (m.name, m)

/-- The aliases in order, those that cannot be added left out. -/
def withAliases (r : Registry) (aliases : List (String × String)) : Registry :=
  aliases.foldl (fun r a => (r.addAlias? a.1 a.2).getD r) r

/-- The aliases that `withAliases` leaves out. -/
def ignoredAliases (r : Registry) : List (String × String) → List (String × String)
  | [] => []
  | a :: rest =>
    match r.addAlias? a.1 a.2 with
    | some r' => ignoredAliases r' rest
    | none => a :: ignoredAliases r rest

def ignoredMessage (a : String × String) : String :=
  "Ignoring alias " ++ Text.quoted a.1 ++ ": cannot map it to " ++ Text.quoted a.2

end Registry

end Macros
