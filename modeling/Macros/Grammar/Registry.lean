import Macros.Grammar.Modifier
import Macros.Instruction

/-!
The table of commands and tags. A token is looked up in small letters among the aliases,
and an alias leads to the command that first took it.
-/

namespace Macros

structure CommandSpec where
  name : String
  aliases : List String
  description : String
  grammar : ArgumentGrammar
  examples : List String

structure ModifierSpec where
  name : String
  description : String
  grammar : ModifierGrammar
  examples : List String

structure Registry where
  commands : Table CommandSpec
  aliases : Table String
  modifiers : Table ModifierSpec

/-- Why a registration is refused. -/
inductive RegistryError
  | aliasTaken (name owner : String)
  | modifierTaken (name : String)
deriving DecidableEq

def RegistryError.message : RegistryError → String
  | aliasTaken a o => "Alias " ++ Text.quoted a ++ " already belongs to " ++ Text.quoted o
  | modifierTaken n => "Modifier " ++ Text.quoted n ++ " already registered"

namespace Registry

def empty : Registry := ⟨[], [], []⟩

/-- The tokens that lead to a command: its name and its aliases, in small letters. -/
def tokens (spec : CommandSpec) : List String :=
  Text.lower spec.name :: spec.aliases.map Text.lower

/-- The first token that another command has. -/
def taken? (r : Registry) (spec : CommandSpec) : Option RegistryError :=
  (tokens spec).findSome? fun token =>
    match r.aliases.get? token with
    | some owner => if owner = spec.name then none else some (.aliasTaken token owner)
    | none => none

def registerCommand (r : Registry) (spec : CommandSpec) : Except RegistryError Registry :=
  match r.taken? spec with
  | some e => .error e
  | none => .ok { r with
      commands := r.commands.put spec.name spec
      aliases := (tokens spec).foldl (fun t token => t.put token spec.name) r.aliases }

def registerModifier (r : Registry) (spec : ModifierSpec) : Except RegistryError Registry :=
  let key := Text.lower spec.name
  if r.modifiers.has key then .error (.modifierTaken spec.name)
  else .ok { r with modifiers := r.modifiers.put key spec }

/-- A token without the slashes in front of it, in small letters. -/
def bareToken (s : String) : String :=
  String.ofList ((Text.lower s).toList.dropWhile (· = '/'))

/-- Lets `name` lead to the command of the token `command`; none if it cannot. -/
def addAlias? (r : Registry) (name command : String) : Option Registry :=
  match r.aliases.get? (bareToken command) with
  | none => none
  | some target =>
    let key := bareToken name
    if key.isEmpty then none
    else
      match r.aliases.get? key with
      | some owner =>
        if owner = target then some { r with aliases := r.aliases.put key target } else none
      | none => some { r with aliases := r.aliases.put key target }

/-- The command that a token leads to, the slash already taken off. -/
def resolve (r : Registry) (token : String) : Option CommandSpec :=
  match r.aliases.get? (Text.lower token) with
  | some name => r.commands.get? name
  | none => none

def command? (r : Registry) (name : String) : Option CommandSpec := r.commands.get? name

def modifier? (r : Registry) (name : String) : Option ModifierSpec :=
  r.modifiers.get? (Text.lower name)

def commandNames (r : Registry) : List String := sortedTexts r.commands.keys

def modifierNames (r : Registry) : List String := sortedTexts (r.modifiers.map (·.2.name))

def aliasesOf (r : Registry) (name : String) : List String :=
  sortedTexts ((r.aliases.filter (·.2 = name)).map (·.1))

end Registry

/-- Why an instruction cannot be written with a registry. -/
inductive WriteError
  | unknownModifier (name : String)
  | render (m : Misfit)
deriving DecidableEq

/-- A modifier as its grammar writes it. -/
def Registry.renderModifier (r : Registry) (name : String) (v : Value) :
    Except WriteError String :=
  match r.modifier? name with
  | none => .error (.unknownModifier (Text.lower name))
  | some spec => (spec.grammar.render v).mapError .render

/-- An instruction as a line, its modifiers written by their grammars. -/
def Instruction.write (i : Instruction) (r : Registry) : Except WriteError String :=
  (i.sortedModifiers.mapM fun (name, v) => r.renderModifier name v).map i.assemble

end Macros
