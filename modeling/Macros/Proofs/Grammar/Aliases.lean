import Macros.Proofs.Grammar.Arrangement

/-!
The table of tokens over its whole history. Commands, tags and aliases are added in any order, and what would
take a token from the command that has it is refused; so a token that leads to a command leads to it from
then on, and every token that is stored leads somewhere.
-/

namespace Macros

/-- What is added to a registry. -/
inductive Registration
  | command (spec : CommandSpec)
  | named (name command : String)
  | modifier (spec : ModifierSpec)

/-- The registry that has it, unless it is refused. -/
def Registration.perform? (r : Registry) : Registration → Option Registry
  | .command spec => (r.registerCommand spec).toOption
  | .named name target => r.addAlias? name target
  | .modifier spec => (r.registerModifier spec).toOption

/-- The registry after it, also if it is refused. -/
def Registration.apply (r : Registry) (x : Registration) : Registry := (x.perform? r).getD r

namespace Registry

/-- The registry after additions, one after the other. -/
def registered (r : Registry) (xs : List Registration) : Registry := xs.foldl Registration.apply r

variable {r r' r'' : Registry} {spec : CommandSpec} {token target : String}

/-! What one addition does. -/

/-- No token was taken from a command. -/
def Grows (r r' : Registry) : Prop := ∀ token target, r.aliases.get? token = some target →
  r'.aliases.get? token = some target

theorem Grows.refl (r : Registry) : r.Grows r := fun _ _ => id

theorem Grows.trans (h : r.Grows r') (h' : r'.Grows r'') : r.Grows r'' := fun token target ht =>
  h' token target (h token target ht)

/-- No token of the command belongs to another one. -/
def Free (r : Registry) (spec : CommandSpec) : Prop :=
  ∀ token ∈ tokens spec, ∀ owner, r.aliases.get? token = some owner → owner = spec.name

theorem taken?_eq_none : r.taken? spec = none ↔ r.Free spec := by
  unfold taken? Free
  rw [List.findSome?_eq_none_iff]
  refine forall₂_congr fun token _ => ?_
  cases r.aliases.get? token with
  | none => simp
  | some owner => simp

/-- A command is refused just if another one has a token of it. -/
theorem registerCommand_eq_ok : r.registerCommand spec = .ok r' ↔ r.Free spec ∧
    r' = { r with
      commands := r.commands.put spec.name spec
      aliases := (tokens spec).foldl (fun t token => t.put token spec.name) r.aliases } := by
  unfold registerCommand
  rw [← taken?_eq_none]
  cases r.taken? spec with
  | none => simp [eq_comm]
  | some e => simp

theorem get?_putKeys (keys : List String) (v : String) (t : Table String) (k : String) :
    Table.get? (keys.foldl (fun t key => t.put key v) t) k = if k ∈ keys then some v else t.get? k := by
  induction keys generalizing t with
  | nil => simp
  | cons key keys ih =>
    rw [List.foldl_cons, ih, Table.get?_put]
    by_cases hk : k ∈ keys
    · simp [hk]
    · simp [hk]

/-- The tokens are in small letters and lead to commands, and commands are found under their names and by all of
their tokens. -/
structure Sound (r : Registry) : Prop where
  leads : r.Leads
  named : ∀ name spec, r.commands.get? name = some spec → spec.name = name
  found : ∀ name spec, r.commands.get? name = some spec → ∀ token ∈ tokens spec,
    r.aliases.get? token = some name

theorem sound_empty : empty.Sound := ⟨nofun, nofun, nofun⟩

theorem lower_of_mem_tokens (h : token ∈ tokens spec) : Text.lower token = token := by
  rcases List.mem_cons.1 h with rfl | h
  · exact Text.lower_lower _
  · obtain ⟨a, -, rfl⟩ := List.mem_map.1 h
    exact Text.lower_lower a

theorem registerCommand_grows (h : r.registerCommand spec = .ok r') : r.Grows r' := by
  obtain ⟨hfree, rfl⟩ := registerCommand_eq_ok.1 h
  intro token target ht
  dsimp only
  rw [get?_putKeys]
  split
  · next hm => rw [hfree token hm target ht]
  · exact ht

theorem Sound.registerCommand (h : r.Sound) (hr : r.registerCommand spec = .ok r') : r'.Sound := by
  have hgrows := registerCommand_grows hr
  obtain ⟨-, rfl⟩ := registerCommand_eq_ok.1 hr
  refine ⟨?_, ?_, ?_⟩
  · intro token target ht
    dsimp only at ht ⊢
    rw [get?_putKeys] at ht
    rw [Table.get?_put]
    by_cases hm : token ∈ tokens spec
    · rw [if_pos hm] at ht
      obtain rfl := Option.some.inj ht
      exact ⟨lower_of_mem_tokens hm, spec, if_pos rfl, rfl⟩
    · rw [if_neg hm] at ht
      obtain ⟨hsmall, old, hold, hname⟩ := h.leads token target ht
      refine ⟨hsmall, ?_⟩
      split
      · next he => exact ⟨spec, rfl, he.symm⟩
      · exact ⟨old, hold, hname⟩
  · intro name old hold
    dsimp only at hold
    rw [Table.get?_put] at hold
    split at hold
    · next he => rw [← Option.some.inj hold, he]
    · exact h.named name old hold
  · intro name old hold token hm
    dsimp only at hold
    rw [Table.get?_put] at hold
    split at hold
    · next he =>
      obtain rfl := Option.some.inj hold
      dsimp only
      rw [get?_putKeys, if_pos hm, he]
    · exact hgrows token name (h.found name old hold token hm)

theorem Sound.addAlias? {name command : String} (h : r.Sound) (hr : r.addAlias? name command = some r') :
    r'.Sound := by
  have hkeeps := addAlias?_keeps hr
  refine ⟨h.leads.addAlias? hr, ?_, ?_⟩
  · rw [hkeeps.commands]
    exact h.named
  · rw [hkeeps.commands]
    intro name spec hs token hm
    exact hkeeps.aliases token name (h.found name spec hs token hm)

/-- A tag changes neither the commands nor the tokens. -/
theorem registerModifier_eq_ok {spec : ModifierSpec} (h : r.registerModifier spec = .ok r') :
    ∃ modifiers, r' = { r with modifiers } := by
  unfold registerModifier at h
  dsimp only at h
  split at h
  · simp at h
  · exact ⟨_, (Except.ok.inj h).symm⟩

theorem eq_ok_of_toOption {ε α : Type} {x : Except ε α} {a : α} (h : x.toOption = some a) : x = .ok a := by
  cases x with
  | error e => contradiction
  | ok b => rw [Option.some.inj h]

/-- One addition keeps the table sound, and takes no token from a command. -/
theorem Sound.perform? {x : Registration} (h : r.Sound) (hx : x.perform? r = some r') :
    r'.Sound ∧ r.Grows r' := by
  cases x with
  | command spec =>
    have hr := eq_ok_of_toOption hx
    exact ⟨h.registerCommand hr, registerCommand_grows hr⟩
  | named name target => exact ⟨h.addAlias? hx, (addAlias?_keeps hx).aliases⟩
  | modifier spec =>
    obtain ⟨modifiers, rfl⟩ := registerModifier_eq_ok (eq_ok_of_toOption hx)
    exact ⟨⟨h.leads, h.named, h.found⟩, .refl _⟩

theorem apply_refused {x : Registration} (h : x.perform? r = none) : x.apply r = r := by
  rw [Registration.apply, h]
  rfl

theorem Sound.apply (h : r.Sound) (x : Registration) : (x.apply r).Sound ∧ r.Grows (x.apply r) := by
  cases hx : x.perform? r with
  | none =>
    rw [apply_refused hx]
    exact ⟨h, .refl r⟩
  | some r' =>
    rw [Registration.apply, hx]
    exact h.perform? hx

/-! The whole history. -/

/-- Additions keep the table sound, and take no token from a command. -/
theorem Sound.registered (h : r.Sound) (xs : List Registration) :
    (r.registered xs).Sound ∧ r.Grows (r.registered xs) := by
  induction xs generalizing r with
  | nil => exact ⟨h, .refl r⟩
  | cons x xs ih =>
    obtain ⟨hx, hgrows⟩ := h.apply x
    obtain ⟨hxs, hlater⟩ := ih hx
    exact ⟨hxs, hgrows.trans hlater⟩

/-- What a token resolves to is the command whose name the token leads to. -/
theorem Sound.resolve_eq_some (h : r.Sound) : r.resolve token = some spec ↔
    r.aliases.get? (Text.lower token) = some spec.name ∧ r.commands.get? spec.name = some spec := by
  unfold resolve
  constructor
  · intro hr
    split at hr
    · next name hn =>
      obtain rfl := h.named name spec hr
      exact ⟨hn, hr⟩
    · contradiction
  · rintro ⟨hn, hs⟩
    rw [hn]
    exact hs

theorem Sound.resolve_grows (h : r.Sound) (h' : r'.Sound) (hg : r.Grows r') (hr : r.resolve token = some spec) :
    ∃ spec', r'.resolve token = some spec' ∧ spec'.name = spec.name := by
  obtain ⟨hn, -⟩ := h.resolve_eq_some.1 hr
  have hn' := hg _ _ hn
  obtain ⟨-, spec', hs, hname⟩ := h'.leads _ _ hn'
  refine ⟨spec', h'.resolve_eq_some.2 ⟨?_, ?_⟩, hname⟩
  · rw [hn', hname]
  · rw [hname, hs]

/-- What every registry begins with. -/
def builtins : List Registration :=
  builtinCommands.map .command ++ builtinModifiers.map .modifier

deriving instance DecidableEq for CommandSpec, ModifierSpec, Registry

theorem registered_builtins : empty.registered builtins = builtin := by
  decide +kernel

theorem registered_append (r : Registry) (xs ys : List Registration) :
    r.registered (xs ++ ys) = (r.registered xs).registered ys := List.foldl_append

/-- A command of the built-in registry stays what its tokens lead to, whatever aliases the user has. -/
theorem resolve_withAliases (aliases : List (String × String)) (hr : builtin.resolve token = some spec) :
    (builtin.withAliases aliases).resolve token = some spec := by
  have hkeeps := withAliases_keeps builtin aliases
  have hbuiltin : builtin.Sound := registered_builtins ▸ (sound_empty.registered builtins).1
  obtain ⟨hn, hs⟩ := hbuiltin.resolve_eq_some.1 hr
  unfold resolve
  rw [hkeeps.aliases _ _ hn, hkeeps.commands]
  exact hs

/-- After any history every stored token is in small letters and leads to a command, so that nothing is looked up
in vain; every command is found by its name and its aliases, in any letter case. A token leads to the same
command after any further additions, and one that is refused changes nothing. -/
theorem aliases_settled (xs : List Registration) :
    (∀ token name, (empty.registered xs).aliases.get? token = some name →
      Text.lower token = token ∧ ∃ spec, (empty.registered xs).command? name = some spec ∧ spec.name = name) ∧
    (∀ token, (empty.registered xs).resolve token = none →
      (empty.registered xs).aliases.get? (Text.lower token) = none) ∧
    (∀ name spec, (empty.registered xs).command? name = some spec →
      ∀ token, Text.lower token = Text.lower name ∨ Text.lower token ∈ spec.aliases.map Text.lower →
        (empty.registered xs).resolve token = some spec) ∧
    (∀ token spec, (empty.registered xs).resolve token = some spec →
      ∀ ys, ∃ spec', (empty.registered (xs ++ ys)).resolve token = some spec' ∧ spec'.name = spec.name) ∧
    (∀ aliases token spec, builtin.resolve token = some spec →
      (builtin.withAliases aliases).resolve token = some spec) ∧
    ∀ x : Registration, x.perform? (empty.registered xs) = none →
      x.apply (empty.registered xs) = empty.registered xs := by
  obtain ⟨hsound, -⟩ := sound_empty.registered xs
  refine ⟨hsound.leads, ?_, ?_, ?_, fun aliases _ _ => resolve_withAliases aliases, fun x => apply_refused⟩
  · intro token hr
    by_contra ha
    obtain ⟨name, hn⟩ := Option.ne_none_iff_exists'.1 ha
    obtain ⟨-, spec, hs, rfl⟩ := hsound.leads _ _ hn
    rw [hsound.resolve_eq_some.2 ⟨hn, hs⟩] at hr
    contradiction
  · intro name spec hs token htoken
    obtain rfl := hsound.named name spec hs
    have hm : Text.lower token ∈ tokens spec := List.mem_cons.2 htoken
    exact hsound.resolve_eq_some.2 ⟨hsound.found _ spec hs _ hm, hs⟩
  · intro token spec hr ys
    obtain ⟨hlater, hgrows⟩ := hsound.registered ys
    rw [registered_append]
    exact hsound.resolve_grows hlater hgrows hr

/-- A command that is given another alias, and later registered again without its first one. -/
def spells : List Registration :=
  [.command ⟨"Zauber", ["Z"], "", .text, []⟩, .named "/Hex" "//zAUBER", .command ⟨"zauber", [], "", .text, []⟩,
    .command ⟨"Zauber", ["Spruch"], "", .name, []⟩]

theorem spells_settled : (empty.registered spells).aliases.keys = ["zauber", "z", "hex", "spruch"] ∧
    (∃ spec, (empty.registered spells).resolve "HEX" = some spec ∧ spec.grammar = .name) ∧
    ∀ ys, ∃ spec, (empty.registered (spells ++ ys)).resolve "HEX" = some spec ∧ spec.name = "Zauber" := by
  have hkeys : (empty.registered spells).aliases.keys = ["zauber", "z", "hex", "spruch"] := by decide +kernel
  have hspec : (empty.registered spells).resolve "HEX" = some ⟨"Zauber", ["Spruch"], "", .name, []⟩ := by
    decide +kernel
  obtain ⟨-, -, -, hstays, -⟩ := aliases_settled spells
  exact ⟨hkeys, ⟨_, hspec, rfl⟩, hstays "HEX" _ hspec⟩

end Registry

end Macros
