import Macros.CommandLine.Control
import Macros.Proofs.Grammar.Recounted
import Macros.Proofs.Number.Numerals
import Macros.Proofs.Scheduler.Outside
import Macros.Proofs.Scheduler.Planned
import Macros.Proofs.Text.Words
import Macros.Proofs.Tree.Alike

/-!
Macros that are started by a text command. The name is found again behind the words of the command, whatever words
and blanks are in it; only a name of several words that begins with `loop` is taken for a loop count and another name.
-/

namespace Macros

open Text

namespace Numeral

/-- The digits of a number, as many as can be read, with or without zeros in front of it. -/
structure Decimal (digits : String) (n : Nat) : Prop where
  notEmpty : digits ≠ ""
  digit : ∀ c ∈ digits.toList, c.isDigit
  short : digits.length ≤ maxDigits
  value : Nat.ofDigitChars 10 digits.toList 0 = n

theorem Decimal.integer?_eq {digits : String} {n : Nat} (h : Decimal digits n) :
    integer? digits = some (n : Int) := by
  rw [integer?_digits h.notEmpty h.digit, if_neg (Nat.not_lt.2 h.short), h.value]

theorem not_blank_of_isDigit {c : Char} (h : c.isDigit) : isBlank c = false := by
  have := isDigit_iff.1 h
  simp [isBlank]
  omega

theorem word_of_digits {digits : String} (hne : digits ≠ "") (h : ∀ c ∈ digits.toList, c.isDigit) :
    Word digits.toList :=
  ⟨mt String.toList_eq_nil_iff.1 hne, fun c hc => not_blank_of_isDigit (h c hc)⟩

/-- Zeros in front of the digits of a number. -/
def padded (k : Nat) (digits : String) : String := String.ofList (List.replicate k '0' ++ digits.toList)

theorem digit_of_mem_padded {k : Nat} {digits : String} (h : ∀ c ∈ digits.toList, c.isDigit) :
    ∀ c ∈ (padded k digits).toList, c.isDigit := by
  intro c hc
  rw [padded, String.toList_ofList, List.mem_append, List.mem_replicate] at hc
  obtain ⟨-, rfl⟩ | hc := hc
  · decide
  · exact h c hc

theorem value_padded (k : Nat) (digits : String) :
    Nat.ofDigitChars 10 (padded k digits).toList 0 = Nat.ofDigitChars 10 digits.toList 0 := by
  rw [padded, String.toList_ofList, Nat.ofDigitChars_append, Nat.ofDigitChars_replicate_zero, Nat.mul_zero]

theorem length_padded (k : Nat) (digits : String) : (padded k digits).length = k + digits.length := by
  rw [padded, String.length_ofList, List.length_append, List.length_replicate, String.length_toList]

end Numeral

namespace Command

/-- Are there several words, the first of which announces a loop count? -/
def announcesLoop (name : String) : Bool :=
  match wordsChars name.toList with
  | word :: _ :: _ => isLoopWord word
  | _ => false

variable {name : String}

theorem word_loop : Word "loop".toList := by
  constructor
  · decide
  · decide

theorem readName_eq (hne : name ≠ "") (count : Option Int) : readName count name.toList = .ok (run count name) := by
  rw [readName, if_neg (by simpa using hne), String.ofList_toList]

/-- The words of a command and its name are told apart as they were put together. -/
theorem read_run (hne : name ≠ "") (ht : Trimmed name.toList) : read ("run " ++ name) = readRun name.toList := by
  have hne' : name.toList ≠ [] := mt String.toList_eq_nil_iff.1 hne
  have htext : ("run " ++ name).toList = "run".toList ++ [' '] ++ name.toList := by simp
  have hword : Word "run".toList := by
    constructor
    · decide
    · decide
  have htrim : trim ("run " ++ name) = "run " ++ name := by
    apply Trimmed.trim_eq
    rw [htext]
    exact hword.trimmed.between hword.1 ht hne' _
  have hnext : nextWord ("run " ++ name).toList = ("run".toList, name.toList) := by
    rw [htext, List.append_assoc, nextWord_append hword.2 (by simp; decide),
      trimStartChars_append (by decide) ht.first]
  have hverb : lower (String.ofList "run".toList) = "run" := by decide
  unfold read
  dsimp only
  rw [htrim, hnext]
  dsimp only
  rw [hverb]
  simp

/-- A name is taken for a name unless it announces a loop. -/
theorem readRun_name_iff (hne : name ≠ "") :
    readRun name.toList = .ok (run none name) ↔ announcesLoop name = false := by
  unfold readRun
  split
  · next word count rest hup =>
    obtain ⟨ws, hws⟩ := wordsUpTo_two_iff.1 ⟨rest, hup⟩
    rw [announcesLoop, hws]
    dsimp only
    split
    · next hloop =>
      simp only [hloop, Bool.true_eq_false, iff_false]
      -- it is refused, or read with a count
      unfold readName
      split
      · simp
      · split
        · simp
        · split <;> simp
    · next hloop => simp [readName_eq hne, hloop]
  · next hup =>
    simp only [readName_eq hne, true_iff]
    unfold announcesLoop
    split
    · next word count ws hws =>
      obtain ⟨rest, hrest⟩ := wordsUpTo_two_iff.2 ⟨ws, hws⟩
      exact absurd hrest (hup word count rest)
    · rfl

/-- A word and a name behind the word that announces a loop count. -/
theorem wordsUpTo_loop {word : String} (hw : Word word.toList) (hne : name ≠ "") (ht : Trimmed name.toList) :
    wordsUpTo 2 ("loop " ++ word ++ " " ++ name).toList = ["loop".toList, word.toList, name.toList] := by
  have htext : ("loop " ++ word ++ " " ++ name).toList =
      "loop".toList ++ ' ' :: (word.toList ++ ' ' :: name.toList) := by
    simp
  have hfirst : ∀ c ∈ (word.toList ++ ' ' :: name.toList).head?, isBlank c = false := by
    rw [List.head?_append, Option.or_of_isSome (List.isSome_head?.2 hw.1)]
    exact hw.first
  rw [htext, wordsUpTo_word word_loop (by decide) hfirst, wordsUpTo_word hw (by decide) ht.first, wordsUpTo,
    trimStartChars_eq _ ht.first]
  split
  · next hnil => exact absurd (String.toList_eq_nil_iff.1 hnil) hne
  · rfl

theorem readRun_loop {word : String} (hw : Word word.toList) (hne : name ≠ "") (ht : Trimmed name.toList) :
    readRun ("loop " ++ word ++ " " ++ name).toList =
      match Numeral.integer? word with
      | none => .error (.countNotNumber word)
      | some n => if n < 0 then .error .negativeCount else .ok (run (some n) name) := by
  have hloop : isLoopWord "loop".toList = true := by decide
  have htrim : trimChars [name.toList].flatten = name.toList := by
    rw [List.flatten_singleton, trimChars, trimStartChars_eq _ ht.first, trimEndChars_eq _ ht.last]
  unfold readRun
  rw [wordsUpTo_loop hw hne ht]
  dsimp only
  rw [if_pos hloop, String.ofList_toList, htrim]
  cases Numeral.integer? word with
  | none => rfl
  | some n => dsimp only; rw [readName_eq hne]

/-- The form with a loop count. -/
theorem read_run_loop {word : String} (hw : Word word.toList) (hne : name ≠ "") (ht : Trimmed name.toList) :
    read ("run loop " ++ word ++ " " ++ name) =
      match Numeral.integer? word with
      | none => .error (.countNotNumber word)
      | some n => if n < 0 then .error .negativeCount else .ok (run (some n) name) := by
  have hrest : "run loop " ++ word ++ " " ++ name = "run " ++ ("loop " ++ word ++ " " ++ name) := by
    simp [← String.append_assoc]
  rw [hrest, read_run ?_ ?_, readRun_loop hw hne ht]
  · simp
  · have htext : ("loop " ++ word ++ " " ++ name).toList =
        "loop".toList ++ (' ' :: word.toList ++ [' ']) ++ name.toList := by
      simp
    rw [htext]
    exact Trimmed.between word_loop.trimmed word_loop.1 ht (mt String.toList_eq_nil_iff.1 hne) _

end Command

namespace Tree

/-- Just one macro of the tree has the name, and the tree has it in one place. -/
structure Only (t : Tree) (name : Value) (n : NodeId) : Prop where
  listed : t.leaves.count n = 1
  named : t.name n = name
  others : ∀ m ∈ t.leaves, t.name m = name → m = n

theorem only_iff {t : Tree} {name : String} {n : NodeId} :
    t.Only (.text name) n ↔ t.findLeaves (.text name) = [n] := by
  have hnamed : ∀ m, t.isNamed (.text name) m = true ↔ t.name m = .text name := fun m => Value.same_text name _
  constructor
  · intro h
    have hcount : (t.findLeaves (.text name)).count n = 1 := by
      rw [findLeaves, List.count_filter ((hnamed n).2 h.named)]
      exact h.listed
    have hall : ∀ m ∈ t.findLeaves (.text name), n = m := by
      intro m hm
      obtain ⟨hm, hname⟩ := List.mem_filter.1 hm
      exact (h.others m hm ((hnamed m).1 hname)).symm
    -- nothing but `n` is found, and that once
    have hlength := List.count_eq_length.2 hall
    rw [hcount] at hlength
    obtain ⟨m, hm⟩ := List.length_eq_one_iff.1 hlength.symm
    rw [hm, hall m (by simp [hm])]
  · intro h
    have hmem : n ∈ t.findLeaves (.text name) := by simp [h]
    obtain ⟨-, hname⟩ := List.mem_filter.1 hmem
    constructor
    · rw [← List.count_filter hname, ← findLeaves, h]
      simp
    · exact (hnamed n).1 hname
    · intro m hm hsame
      have : m ∈ t.findLeaves (.text name) := List.mem_filter.2 ⟨hm, (hnamed m).2 hsame⟩
      simpa [h] using this

end Tree

namespace Session

variable {σ τ : Type} {b : Bridge τ} {s : Session σ τ} {node : NodeId} {name : String} {body : Body}
  {count : Option Int} {text : String} {work : Work τ}

/-- What a macro is run as. A native macro is run as its own text, in the craft-loop template if it asks for that,
with the count put into the last loop of that text. A script is run as it is. -/
inductive Builds (b : Bridge τ) (s : Session σ τ) (name : Value) (body : Body) :
    Option Int → String → Work τ → Prop
  | plain {text : String} {is : List Instruction} (language : body.language = .native)
      (hown : s.runText body none = .ok (.ok text)) (lines : Line.readAll s.registry text = .ok is) :
      Builds b s name body none text (.native (.start is))
  | looped {own text : String} {is : List Instruction} {n : Int} (language : body.language = .native)
      (hown : s.runText body none = .ok (.ok own)) (last : CraftLoop.overrideLast s.registry own n = .ok text)
      (lines : Line.readAll s.registry text = .ok is) :
      Builds b s name body (some n) text (.native (.start is))
  | script {run : ScriptRun τ} (count : Option Int) (language : body.language = .lua)
      (loads : b.start (b.request name body.contents s.settings.requirePaths) = .ok run) :
      Builds b s name body count body.contents.plain (.script (.start run))

/-- A macro has been put on top of those in progress, and is at its beginning. -/
structure PutOnTop (s : Session σ τ) (node : NodeId) (text : String) (work : Work τ) (s' : Session σ τ) :
    Prop where
  stack : s'.stack = s.stack ++ [s.newFrame node text work]
  state : s'.state = if s.state = .notReady then .notReady else .running
  prior : s.state = .notReady → s'.prior = .running
  kept : s'.tree = s.tree ∧ s'.settings = s.settings ∧ s'.registry = s.registry ∧ s'.closed = s.closed

theorem runText_some_iff {n : Int} :
    s.runText body (some n) = .ok (.ok text) ↔
      ∃ own, s.runText body none = .ok (.ok own) ∧ CraftLoop.overrideLast s.registry own n = .ok text := by
  unfold runText
  rcases s.wrappedText body with f | e | v
  · simp
  · simp
  · cases v with
    | text own =>
      dsimp only
      cases h : CraftLoop.overrideLast s.registry own n <;> simp [h]
    | _ => simp

theorem buildNative_iff {name : Value} :
    (s.buildNative name body count).1 = .ok (some (text, work)) ↔
      ∃ is, s.runText body count = .ok (.ok text) ∧ Line.readAll s.registry text = .ok is ∧
        work = .native (.start is) := by
  unfold buildNative
  rcases s.runText body count with f | e | own
  · simp
  · simp
  · dsimp only
    constructor
    · intro h
      split at h
      · simp at h
      · next is his =>
        simp only [Except.ok.injEq, Option.some.injEq, Prod.mk.injEq] at h
        obtain ⟨rfl, rfl⟩ := h
        exact ⟨is, rfl, his, rfl⟩
    · rintro ⟨is, hown, his, rfl⟩
      obtain rfl : own = text := by simpa using hown
      rw [his]

theorem buildScript_iff {name : Value} :
    (s.buildScript b name body count).1 = some (text, work) ↔
      ∃ run, b.start (b.request name body.contents s.settings.requirePaths) = .ok run ∧
        text = body.contents.plain ∧ work = .script (.start run) := by
  have hsettings : (s.ignoreCount name count).settings = s.settings := by
    cases count <;> rfl
  unfold buildScript
  dsimp only
  rw [hsettings]
  cases b.start (b.request name body.contents s.settings.requirePaths) with
  | error m => simp
  | ok run =>
    simp only [Option.some.injEq, Prod.mk.injEq, Except.ok.injEq, exists_eq_left']
    constructor
    · rintro ⟨rfl, rfl⟩
      exact ⟨rfl, rfl⟩
    · rintro ⟨rfl, rfl⟩
      exact ⟨rfl, rfl⟩

/-- A macro is ready to be pushed just as it is to be run. -/
theorem build_iff {name : Value} :
    (s.build b name body count).1 = .ok (some (text, work)) ↔ Builds b s name body count text work := by
  unfold build
  cases hl : body.language with
  | native =>
    dsimp only
    rw [buildNative_iff]
    constructor
    · rintro ⟨is, hown, his, rfl⟩
      cases count with
      | none => exact .plain hl hown his
      | some n =>
        obtain ⟨own, hown, hlast⟩ := runText_some_iff.1 hown
        exact .looped hl hown hlast his
    · intro h
      cases h with
      | plain _ hown his => exact ⟨_, hown, his, rfl⟩
      | looped _ hown hlast his => exact ⟨_, runText_some_iff.2 ⟨_, hown, hlast⟩, his, rfl⟩
      | script _ h _ => simp [hl] at h
  | lua =>
    dsimp only
    rw [Except.ok.injEq, buildScript_iff]
    constructor
    · rintro ⟨run, hrun, rfl, rfl⟩
      exact .script count hl hrun
    · intro h
      cases h with
      | plain h _ _ => simp [hl] at h
      | looped h _ _ _ => simp [hl] at h
      | script _ _ hrun => exact ⟨_, hrun, rfl, rfl⟩

theorem putOnTop_push {u : Session σ τ} (h : Remarked s u) (node : NodeId) (text : String) (work : Work τ) :
    PutOnTop s node text work (u.push node text work) := by
  obtain ⟨es, -, rfl⟩ := h
  rw [push_eq]
  constructor
  · rfl
  · rfl
  · intro hs
    exact if_pos hs
  · exact ⟨rfl, rfl, rfl, rfl⟩

/-- A loop count of too many digits is refused. -/
theorem command_overlong {digits : String} (hd : ∀ c ∈ digits.toList, c.isDigit)
    (hlong : Numeral.maxDigits < digits.length) (hne : name ≠ "") (ht : Trimmed name.toList) :
    s.command b ("run loop " ++ digits ++ " " ++ name) =
      (.ok ("Loop count must be a number, got " ++ quoted digits), s) := by
  have hdigits : digits ≠ "" := by
    rintro rfl
    contradiction
  unfold command
  rw [Command.read_run_loop (Numeral.word_of_digits hdigits hd) hne ht, Numeral.integer?_digits hdigits hd,
    if_pos hlong]
  rfl

variable (hopen : s.closed = false) (hroom : s.stack.length < Limits.maxFrameDepth)
  (honly : s.tree.Only (.text name) node) (hbody : s.tree.body? node = some body)
include hopen hroom honly hbody

/-- A macro that is built is found by its name and put on the stack. -/
theorem runByName_puts_on_top (hb : Builds b s (.text name) body count text work) :
    ∃ s', s.runByName b (.text name) count = (.ok true, s') ∧ PutOnTop s node text work s' := by
  have hremarked := build_remarked b s (.text name) body count
  have hbuilt := build_iff.2 hb
  -- while a macro is built, observers are told something, and the stack stays as it is
  have hdepth : ¬Limits.maxFrameDepth ≤ (s.build b (.text name) body count).2.stack.length := by
    rw [hremarked.stack]
    omega
  refine ⟨_, ?_, putOnTop_push hremarked node text work⟩
  unfold runByName
  rw [Tree.only_iff.1 honly]
  dsimp only
  unfold run
  rw [hopen, honly.named, hbody, if_neg Bool.false_ne_true]
  dsimp only
  generalize s.build b (.text name) body count = built at *
  obtain ⟨result, u⟩ := built
  obtain rfl : result = .ok (some (text, work)) := hbuilt
  exact if_neg hdepth

end Session

/-- A macro whose name no other macro has is started by its name, unless that announces a loop, and is started with a
loop count by any name; whatever is in progress goes on below it. -/
theorem Session.command_starts_macro {σ τ : Type} (b : Bridge τ) {s : Session σ τ} {node : NodeId} {name : String}
    {body : Body} (hopen : s.closed = false) (hroom : s.stack.length < Limits.maxFrameDepth) (hne : name ≠ "")
    (ht : Trimmed name.toList) (honly : s.tree.Only (.text name) node) (hbody : s.tree.body? node = some body) :
    (Command.read ("run " ++ name) = .ok (.run none name) ↔ Command.announcesLoop name = false) ∧
      (Command.announcesLoop name = false → ∀ text work, Builds b s (.text name) body none text work →
        ∃ s', s.command b ("run " ++ name) = (.ok ("Running " ++ quoted name), s') ∧
          PutOnTop s node text work s') ∧
      ∀ digits n, Numeral.Decimal digits n → ∀ text work, Builds b s (.text name) body (some n) text work →
        ∃ s', s.command b ("run loop " ++ digits ++ " " ++ name) =
            (.ok ("Running " ++ quoted name ++ " (" ++ toString n ++ " loops)"), s') ∧
          PutOnTop s node text work s' := by
  have hread : Command.read ("run " ++ name) = .ok (.run none name) ↔ Command.announcesLoop name = false := by
    rw [Command.read_run hne ht]
    exact Command.readRun_name_iff hne
  refine ⟨hread, ?_, ?_⟩
  · intro hname text work hb
    obtain ⟨s', hrun, htop⟩ := runByName_puts_on_top hopen hroom honly hbody hb
    refine ⟨s', ?_, htop⟩
    unfold command
    rw [hread.2 hname]
    dsimp only [carryOut]
    unfold commandRun
    rw [hrun]
    simp
  · intro digits n hn text work hb
    obtain ⟨s', hrun, htop⟩ := runByName_puts_on_top hopen hroom honly hbody hb
    refine ⟨s', ?_, htop⟩
    have hword := Numeral.word_of_digits hn.notEmpty hn.digit
    unfold command
    rw [Command.read_run_loop hword hne ht, hn.integer?_eq]
    dsimp only
    rw [if_neg (by omega)]
    dsimp only [carryOut]
    unfold commandRun
    rw [hrun]
    simp only [String.append_assoc]
    rfl

/-- Two macros, the names of which begin with `loop`. -/
def loopNamed : Session Unit Lines :=
  .waiting [.native "LOOP" "/ac Groundwork", .native "Loop 5\tOre" "/loop\n/ac Observe"] ()

theorem loopNamed_reads :
    ∀ text ∈ ["/ac Groundwork", "/loop\n/ac Observe", "/loop 5\n/ac Observe", "/loop 7\n/ac Observe"],
      ∃ is, Line.readAll loopNamed.registry text = .ok is ∧ (!is.isEmpty) = true := by
  intro text htext
  apply ok_of_check
  revert text
  decide +kernel

/-- The name of the first is a single word, and the second is started with a loop count. -/
theorem loopNamed_started : ∃ w v s₁ s₂,
    loopNamed.command (.listed []) "run LOOP" = (.ok "Running 'LOOP'", s₁) ∧
      loopNamed.PutOnTop 0 "/ac Groundwork" (.native w) s₁ ∧
      loopNamed.command (.listed []) "run loop 007 Loop 5\tOre" = (.ok "Running 'Loop 5\\tOre' (7 loops)", s₂) ∧
      loopNamed.PutOnTop 1 "/loop 7\n/ac Observe" (.native v) s₂ := by
  obtain ⟨is, his, -⟩ := loopNamed_reads "/ac Groundwork" (by simp)
  obtain ⟨js, hjs, -⟩ := loopNamed_reads "/loop 7\n/ac Observe" (by simp)
  have hfirst := @Session.command_starts_macro _ _ (.listed []) loopNamed 0 "LOOP" _ rfl (by decide) (by decide)
    (by constructor <;> decide) (Tree.only_iff.2 (by decide +kernel)) rfl
  have hsecond := @Session.command_starts_macro _ _ (.listed []) loopNamed 1 "Loop 5\tOre" _ rfl (by decide) (by decide)
    (by constructor <;> decide) (Tree.only_iff.2 (by decide +kernel)) rfl
  obtain ⟨s₁, hrun, htop⟩ := hfirst.2.1 (by decide +kernel) _ _ (.plain rfl rfl his)
  obtain ⟨s₂, hrun₂, htop₂⟩ := hsecond.2.2 "007" 7 ⟨by decide, by decide, by decide, by decide⟩ _ _
    (.looped rfl rfl (by decide +kernel) hjs)
  exact ⟨_, _, s₁, s₂, hrun, htop, hrun₂, htop₂⟩

/-- By its name alone the second macro is not found, since its name is taken apart; and no macro is started with a
loop count that has too many digits. -/
theorem loopNamed_refused :
    (loopNamed.closed = false ∧ loopNamed.stack = [] ∧ Trimmed "Loop 5\tOre".toList ∧
      loopNamed.tree.Only (.text "Loop 5\tOre") 1 ∧ ∃ body, loopNamed.tree.body? 1 = some body ∧
        (∃ w, Session.Builds (.listed []) loopNamed (.text "Loop 5\tOre") body none "/loop\n/ac Observe"
          (.native w)) ∧
        ∃ w, Session.Builds (.listed []) loopNamed (.text "Loop 5\tOre") body (some 5) "/loop 5\n/ac Observe"
          (.native w)) ∧
      loopNamed.command (.listed []) "run Loop 5\tOre" = (.ok "No macro named 'Ore'", loopNamed) ∧
      ∃ digits, (∀ c ∈ digits.toList, c.isDigit) ∧ Nat.ofDigitChars 10 digits.toList 0 = 5 ∧
        loopNamed.command (.listed []) ("run loop " ++ digits ++ " " ++ "Loop 5\tOre") =
          (.ok ("Loop count must be a number, got " ++ quoted digits), loopNamed) := by
  obtain ⟨is, his, -⟩ := loopNamed_reads "/loop\n/ac Observe" (by simp)
  obtain ⟨js, hjs, -⟩ := loopNamed_reads "/loop 5\n/ac Observe" (by simp)
  have hname : Trimmed "Loop 5\tOre".toList := by
    constructor <;> decide
  have hread : Command.read "run Loop 5\tOre" = .ok (.run (some 5) "Ore") := by decide +kernel
  have hfind : loopNamed.tree.findLeaves (.text "Ore") = [] := by decide +kernel
  refine ⟨⟨rfl, rfl, hname, Tree.only_iff.2 (by decide +kernel), _, rfl, ⟨_, .plain rfl rfl his⟩,
    ⟨_, .looped rfl rfl (by decide +kernel) hjs⟩⟩, ?_, Numeral.padded Numeral.maxDigits "5", ?_, ?_, ?_⟩
  · unfold Session.command
    rw [hread]
    dsimp only [Session.carryOut]
    unfold Session.commandRun Session.runByName
    rw [hfind]
    rfl
  · exact Numeral.digit_of_mem_padded (by decide)
  · rw [Numeral.value_padded]
    decide
  · apply Session.command_overlong
    · exact Numeral.digit_of_mem_padded (by decide)
    · rw [Numeral.length_padded]
      exact Nat.lt_add_of_pos_right (by decide)
    · decide
    · exact hname

end Macros
