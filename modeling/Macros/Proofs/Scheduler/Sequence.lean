import Macros.Proofs.Scheduler.Planned
import Macros.Proofs.Scheduler.Ticks

/-!
What a native macro does, read off its lines: a loop line repeats all that was done up to it, and a
line that starts a macro does what that macro does. A run that nothing disturbs hands over exactly
these instructions, whatever loops are nested and however deep macros start each other.
-/

namespace Macros

open Session

variable {σ τ : Type}

/-- All that is done up to a line, and the line with what it starts. -/
def Instruction.after (call : Value → List Instruction) (done : List Instruction)
    (i : Instruction) : List Instruction :=
  if i.command = "loop" then
    (List.replicate (((loopCount i).getD 0).toNat + 1) (done ++ [i])).flatten
  else if i.command = "runmacro" then done ++ i :: call i.args
  else done ++ [i]

namespace Session

/-- The one macro that has the name. -/
def named? (s : Session σ τ) (name : Value) : Option NodeId :=
  match s.tree.findLeaves name with
  | [n] => some n
  | _ => none

/-- The instructions that a macro hands over when there is room for so many frames, its own
included. One that does not build or finds no room hands over nothing. -/
def execution (s : Session σ τ) : (room : Nat) → NodeId → List Instruction
  | 0, _ => []
  | room + 1, n =>
    ((s.built n).getD []).foldl
      (Instruction.after fun name => ((s.named? name).map (s.execution room)).getD []) []

/-- The instructions that the start of a macro by name leads to. -/
def call (s : Session σ τ) (room : Nat) (name : Value) : List Instruction :=
  ((s.named? name).map (s.execution room)).getD []

/-- What the first lines of a macro come to. -/
def upTo (s : Session σ τ) (room : Nat) (is : List Instruction) (k : Nat) : List Instruction :=
  (is.take k).foldl (Instruction.after (s.call room)) []

/-- No tick is disturbed. -/
def Undisturbed (c : Client σ τ) (b : Bridge τ) (s : Session σ τ) : Prop :=
  ∀ k, (s.ticks c b k).Smooth c b

theorem Undisturbed.ticks {c : Client σ τ} {b : Bridge τ} {s : Session σ τ}
    (h : s.Undisturbed c b) (k : Nat) : (s.ticks c b k).Undisturbed c b := by
  intro j
  rw [← ticks_add]
  exact h (k + j)

/-- Every loop of a macro of the tree has a count, and no line has a condition. -/
def Definite (s : Session σ τ) : Prop :=
  ∀ n ∈ s.tree.leaves, ∀ i ∈ (s.built n).getD [],
    (i.command = "loop" → (loopCount i).isSome) ∧ i.has "condition" = false

instance (s : Session σ τ) : Decidable s.Definite :=
  inferInstanceAs (Decidable (∀ n ∈ s.tree.leaves, ∀ i ∈ (s.built n).getD [],
    (i.command = "loop" → (loopCount i).isSome) ∧ i.has "condition" = false))

variable {o : Oracle σ τ} {b : Bridge τ} {s t u : Session σ τ} {base fs fs' fs'' : List (Frame τ)}
  {f : Frame τ} {w : NativeWork} {i : Instruction} {is js : List Instruction} {cs : List (Nat × Int)}
  {k l room : Nat} {n : NodeId}

/-- Undisturbed ticks lead from some frames to others, and hand over these instructions. -/
def Leads (b : Bridge τ) (o : Oracle σ τ) (s : Session σ τ) (fs : List (Frame τ))
    (is : List Instruction) (fs' : List (Frame τ)) : Prop :=
  ∀ t, Standing s fs t → t.Undisturbed (.ofOracle b o) b →
    ∃ k es, Standing s fs' (t.ticks (.ofOracle b o) b k) ∧
      Passage t (t.ticks (.ofOracle b o) b k) is es

theorem Leads.refl : Leads b o s fs [] fs := fun t ht _ => ⟨0, [], ht, .refl t⟩

theorem Leads.trans (h : Leads b o s fs is fs') (h' : Leads b o s fs' js fs'') :
    Leads b o s fs (is ++ js) fs'' := by
  intro t ht hu
  obtain ⟨k, es, h1, hp⟩ := h t ht hu
  obtain ⟨k', es', h2, hp'⟩ := h' _ h1 (hu.ticks k)
  refine ⟨k + k', es' ++ es, ?_, ?_⟩
  · rw [ticks_add]; exact h2
  · rw [ticks_add]; exact hp.trans hp'

/-- One tick. -/
theorem Leads.tick (h : ∀ t, Standing s fs t → t.Smooth (.ofOracle b o) b →
    Standing s fs' (t.tick (.ofOracle b o) b).2 ∧
      ∃ es, Passage t (t.tick (.ofOracle b o) b).2 is es) : Leads b o s fs is fs' := by
  intro t ht hu
  obtain ⟨h1, es, hp⟩ := h t ht (hu 0)
  rw [← ticks_one] at h1 hp
  exact ⟨1, es, h1, hp⟩

/-- Where there is room for just so many frames, every macro runs from its start to its end. -/
def Runs (b : Bridge τ) (o : Oracle σ τ) (s : Session σ τ) (room : Nat) : Prop :=
  ∀ (fs : List (Frame τ)) (f : Frame τ) n is, fs.length + room = Limits.maxFrameDepth → 0 < room →
    n ∈ s.tree.leaves → s.built n = some is →
    Leads b o s (fs ++ [f.doing (.start is)]) (s.execution room n) fs

theorem execution_succ (s : Session σ τ) (room : Nat) (hb : s.built n = some is) :
    s.execution (room + 1) n = s.upTo room is is.length := by
  rw [execution, hb, upTo, List.take_length]
  rfl

theorem upTo_succ (s : Session σ τ) (room : Nat) (hi : is[k]? = some i) :
    s.upTo room is (k + 1) = i.after (s.call room) (s.upTo room is k) := by
  rw [upTo, upTo, List.take_add_one, hi, List.foldl_append]
  rfl

/-- No macro is started by a name that is not that of a single macro which builds. -/
theorem call_nil {name : Value}
    (h : ∀ n, s.tree.findLeaves name = [n] → s.built n = none ∨ room = 0) :
    s.call room name = [] := by
  unfold call named?
  split
  · next n hn =>
    show s.execution room n = []
    cases room with
    | zero => rfl
    | succ room =>
      have hb : s.built n = none := (h n hn).resolve_right (Nat.succ_ne_zero room)
      rw [execution, hb]
      rfl
  · rfl

/-- What a run goes by. -/
structure Regular (o : Oracle σ τ) (s : Session σ τ) : Prop where
  steady : o.Steady
  usable : s.settings.Usable
  native : AllNative s.tree
  definite : s.Definite
  registry : s.registry.Extended

theorem Regular.plainWait (h : s.Regular o) (hb : s.built n = some is) : ∀ i ∈ is, i.PlainWait := by
  obtain ⟨body, -, hi⟩ := Option.bind_eq_some_iff.1 hb
  unfold instructions? at hi
  split at hi
  · next text _ =>
    cases hr : Line.readAll s.registry text with
    | error e => rw [hr] at hi; simp [Except.toOption] at hi
    | ok js =>
      rw [hr] at hi
      obtain rfl := Option.some.inj hi
      exact Line.readAll_plainWait h.registry hr
  · simp at hi

/-! One line. -/

theorem rest_of_lt (h : w.cursor < w.instructions.length) : rest base f w = base ++ [f.doing w] :=
  if_neg (Nat.not_le.2 h)

theorem leads_rest (h : s.Regular o) : Leads b o s (base ++ [f.doing w]) [] (rest base f w) := by
  unfold rest
  split
  · next hw => exact .tick fun t ht _ => tick_end h.steady ht hw
  · exact .refl

/-- A line that starts a macro, with all that this macro does. -/
theorem leads_call (h : s.Regular o) (hr : base.length + 1 + room = Limits.maxFrameDepth)
    (hroom : Runs b o s room)
    (hi : w.instructions[w.cursor]? = some i) (hc : i.command = "runmacro")
    (hd : i.has "condition" = false) :
    Leads b o s (base ++ [f.doing w]) (i :: s.call room i.args) (rest base f w.next) := by
  by_cases hn : ∃ n js, s.tree.findLeaves i.args = [n] ∧ s.built n = some js ∧ 0 < room
  · obtain ⟨n, js, hn, hb, hpos⟩ := hn
    have hm : n ∈ s.tree.findLeaves i.args := by simp [hn]
    have hcall : s.call room i.args = s.execution room n := by
      unfold call named?
      rw [hn]
      rfl
    -- the macro is pushed, runs as a whole, and the line's own macro is innermost again
    have h1 : Leads b o s (base ++ [f.doing w]) (i :: s.execution room n) (base ++ [f.doing w.next]) := by
      intro t ht hu
      obtain ⟨g, h1, es, hp⟩ := tick_starts h.usable h.native h.steady ht (hu 0) hi hc hd hn hb
        (by omega)
      rw [← ticks_one] at h1 hp
      have h2 := hroom (base ++ [f.doing w.next]) g n js (by simpa using hr) hpos
        (List.mem_filter.1 hm).1 hb
      obtain ⟨k, es', h3, hp'⟩ := h2 _ h1 (hu.ticks 1)
      refine ⟨1 + k, es' ++ es, ?_, ?_⟩
      · rw [ticks_add]; exact h3
      · rw [ticks_add]; exact hp.trans hp'
    rw [hcall]
    simpa using h1.trans (leads_rest h)
  · have hn : ∀ n, s.tree.findLeaves i.args = [n] → s.built n = none ∨ room = 0 := by
      intro n hf
      cases hb : s.built n with
      | none => exact .inl rfl
      | some js => exact .inr (Nat.eq_zero_of_not_pos fun hp => hn ⟨n, js, hf, hb, hp⟩)
    rw [call_nil hn]
    refine .tick fun t ht hs => tick_refuses h.usable h.native h.steady ht hs hi hc hd fun n hf => ?_
    exact (hn n hf).imp_right fun h0 => by omega

/-! Loops. -/

theorem dropCounter_setCounter (cs : List (Nat × Int)) (k : Nat) (v : Int) :
    dropCounter (setCounter cs k v) k = dropCounter cs k := by
  simp [setCounter, dropCounter]

theorem passLoop_again {n : Int} (h : 0 < remaining w k n) :
    passLoop w k (some n) =
      ⟨w.instructions, 0, setCounter w.counters k (remaining w k n - 1), w.loopsDone + 1⟩ := by
  simp [passLoop, reenters, countDown, h]

theorem passLoop_done {n : Int} (h : ¬0 < remaining w k n) :
    passLoop w k (some n) = { w with counters := dropCounter w.counters k } := by
  simp [passLoop, reenters, countDown, h]

/-- A loop line, with all the rounds that it still goes back for. Every round finds the counters of
the lines before it as they were, so these lines do the same each time. -/
theorem leads_loop (h : s.Regular o) {n : Int} {before : List Instruction}
    (hbefore : ∀ cs l, (∀ p ∈ cs, k ≤ p.1) → ∃ l',
      Leads b o s (base ++ [f.doing ⟨is, 0, cs, l⟩]) before (base ++ [f.doing ⟨is, k, cs, l'⟩]))
    (hi : is[k]? = some i) (hc : i.command = "loop") (hn : loopCount i = some n)
    (hd : i.has "condition" = false) (hw : i.PlainWait) {m : Nat}
    (hm : (remaining ⟨is, k, cs, l⟩ k n).toNat = m) (hcs : ∀ p ∈ dropCounter cs k, k ≤ p.1) :
    ∃ l', Leads b o s (base ++ [f.doing ⟨is, k, cs, l⟩])
      ([i] ++ (List.replicate m (before ++ [i])).flatten)
      (rest base f ⟨is, k + 1, dropCounter cs k, l'⟩) := by
  have htick : ∀ cs l, Leads b o s (base ++ [f.doing ⟨is, k, cs, l⟩]) [i]
      (rest base f (passLoop ⟨is, k + 1, cs, l⟩ k (some n))) := by
    intro cs l
    refine .tick fun t ht hs => ?_
    rw [← hn]
    exact tick_loop (w := ⟨is, k, cs, l⟩) h.usable h.steady ht hs.ends hi hc hd hw
  induction m generalizing cs l with
  | zero =>
    have hr : ¬0 < remaining ⟨is, k + 1, cs, l⟩ k n := by
      intro hlt
      have hle : remaining ⟨is, k + 1, cs, l⟩ k n ≤ 0 := Int.toNat_eq_zero.1 hm
      omega
    have h1 := htick cs l
    rw [passLoop_done hr] at h1
    exact ⟨l, by simpa using h1⟩
  | succ m ih =>
    have hv : remaining ⟨is, k + 1, cs, l⟩ k n = m + 1 := by
      have hv : (remaining ⟨is, k + 1, cs, l⟩ k n).toNat = m + 1 := hm
      omega
    have h1 := htick cs l
    rw [passLoop_again (by omega), hv,
      rest_of_lt (Nat.zero_lt_of_lt (List.getElem?_eq_some_iff.1 hi).1)] at h1
    have hcs' : ∀ p ∈ setCounter cs k (m + 1 - 1), k ≤ p.1 := by
      intro p hp
      rcases List.mem_cons.1 hp with rfl | hp
      · exact Nat.le_refl k
      · exact hcs p hp
    obtain ⟨l₁, h2⟩ := hbefore _ (l + 1) hcs'
    have hm' : (remaining ⟨is, k, setCounter cs k (m + 1 - 1), l₁⟩ k n).toNat = m := by
      simp [remaining, setCounter]
    obtain ⟨l₂, h3⟩ := ih hm' (by rw [dropCounter_setCounter]; exact hcs)
    rw [dropCounter_setCounter] at h3
    refine ⟨l₂, ?_⟩
    have h4 := (h1.trans h2).trans h3
    rw [List.replicate_succ, List.flatten_cons]
    simpa using h4

/-! A whole macro. -/

theorem dropCounter_of_lt (h : ∀ p ∈ cs, k < p.1) : dropCounter cs k = cs :=
  List.filter_eq_self.2 fun p hp => by simpa using Nat.ne_of_gt (h p hp)

theorem remaining_of_lt (h : ∀ p ∈ cs, k < p.1) (n : Int) :
    remaining ⟨is, k, cs, l⟩ k n = n := by
  have hl : cs.lookup k = none := by
    rw [List.lookup_eq_none_iff]
    intro p hp
    simpa using Nat.ne_of_lt (h p hp)
  unfold remaining
  rw [hl]
  rfl

/-- The first lines of a macro. The counters of later lines are not touched. -/
theorem leads_upTo (h : s.Regular o) (hr : base.length + 1 + room = Limits.maxFrameDepth)
    (hroom : Runs b o s room)
    (hm : n ∈ s.tree.leaves) (hb : s.built n = some is) (hk : k ≤ is.length)
    (hcs : ∀ p ∈ cs, k ≤ p.1) :
    ∃ l', Leads b o s (base ++ [f.doing ⟨is, 0, cs, l⟩]) (s.upTo room is k)
      (rest base f ⟨is, k, cs, l'⟩) := by
  induction k generalizing cs l with
  | zero => exact ⟨l, leads_rest h⟩
  | succ k ih =>
    have hi : is[k]? = some is[k] := List.getElem?_eq_getElem hk
    have hmem : is[k] ∈ is := List.getElem_mem hk
    obtain ⟨hloop, hd⟩ := h.definite n hm is[k] (by rw [hb]; exact hmem)
    have hbefore : ∀ cs l, (∀ p ∈ cs, k ≤ p.1) → ∃ l',
        Leads b o s (base ++ [f.doing ⟨is, 0, cs, l⟩]) (s.upTo room is k)
          (base ++ [f.doing ⟨is, k, cs, l'⟩]) := by
      intro cs l hcs
      obtain ⟨l', h1⟩ := ih (l := l) (Nat.le_of_lt hk) hcs
      rw [rest_of_lt (w := ⟨is, k, cs, l'⟩) hk] at h1
      exact ⟨l', h1⟩
    obtain ⟨l₁, h1⟩ := hbefore cs l fun p hp => Nat.le_of_lt (hcs p hp)
    rw [upTo_succ s room hi, Instruction.after]
    split
    · next hc =>
      obtain ⟨c, hn⟩ := Option.isSome_iff_exists.1 (hloop hc)
      obtain ⟨l₂, h2⟩ := leads_loop (l := l₁) h hbefore hi hc hn hd (h.plainWait hb _ hmem)
        (by rw [remaining_of_lt hcs]) (by rw [dropCounter_of_lt hcs]; exact fun p hp => Nat.le_of_lt (hcs p hp))
      rw [dropCounter_of_lt hcs] at h2
      refine ⟨l₂, ?_⟩
      have h3 := h1.trans h2
      rw [hn, Option.getD_some, List.replicate_succ, List.flatten_cons]
      simpa using h3
    · next hc =>
      split
      · next hm =>
        have h2 := leads_call (f := f) (w := ⟨is, k, cs, l₁⟩) h hr hroom hi hm hd
        exact ⟨l₁, h1.trans h2⟩
      · next hm =>
        have h2 : Leads b o s (base ++ [f.doing ⟨is, k, cs, l₁⟩]) [is[k]]
            (rest base f ⟨is, k + 1, cs, l₁⟩) :=
          .tick fun t ht hs => tick_plain (w := ⟨is, k, cs, l₁⟩) h.usable h.steady ht hs hi hc hm
        exact ⟨l₁, h1.trans h2⟩

/-- A macro from its start to its end, at every depth. -/
theorem runs (h : s.Regular o) (room : Nat) : Runs b o s room := by
  induction room with
  | zero => exact fun _ _ _ _ _ hpos => absurd hpos (Nat.lt_irrefl 0)
  | succ room ih =>
    intro fs f n is hr _ hm hb
    have hr' : fs.length + 1 + room = Limits.maxFrameDepth := by omega
    obtain ⟨l, h1⟩ := leads_upTo (f := f) (l := 0) h hr' ih hm hb (Nat.le_refl _)
      (List.forall_mem_nil _)
    rw [execution_succ s room hb]
    have hrest : rest fs f ⟨is, is.length, [], l⟩ = fs := if_pos (Nat.le_refl _)
    rw [hrest] at h1
    exact h1

/-! From an idle session to an idle session. -/

/-- Nothing is running, and macros can be started. -/
structure Waits (s : Session σ τ) : Prop where
  state : s.state = .idle
  stack : s.stack = []
  opened : s.closed = false
  hasRunner : s.hasRunner

/-- Since `s` these instructions were handed over, the macro was completed, and so was all that it
started; now nothing is running. -/
structure Performed (s : Session σ τ) (n : NodeId) (is : List Instruction) (t : Session σ τ) :
    Prop where
  handed : Journal.handed (s.news t) = is
  finished : .finished (s.tree.name n) .completed ∈ s.news t
  completed : ∀ name r, .finished name r ∈ s.news t → r = .completed
  state : t.state = .idle
  stack : t.stack = []

theorem ticks_idle (c : Client σ τ) (b : Bridge τ) (h : t.state = .idle) (k : Nat) :
    t.ticks c b k = t := by
  induction k with
  | zero => rfl
  | succ k ih => rw [ticks_succ, ih, tick_idle c b h]

/-- A run that comes to rest is undisturbed if the ticks until then are. -/
theorem undisturbed_of_idle {c : Client σ τ} {b : Bridge τ} {k : Nat}
    (h : ∀ j < k, (s.ticks c b j).Smooth c b) (hi : (s.ticks c b k).state = .idle) :
    s.Undisturbed c b := by
  intro j
  rcases Nat.lt_or_ge j k with hj | hj
  · exact h j hj
  · obtain ⟨m, rfl⟩ := Nat.exists_eq_add_of_le hj
    rw [ticks_add, ticks_idle c b hi]
    have ht := tick_idle c b hi
    constructor
    · rw [ht]; simp
    · have hn : (s.ticks c b k).news (s.ticks c b k) = [] := news_eq rfl
      rw [ht, hn]
      simp

theorem run_standing (b : Bridge τ) (hs : s.Waits) (hl : AllNative s.tree) (hn : n ∈ s.tree.leaves)
    (hb : s.built n = some is) :
    (s.run b n none).1 = .ok true ∧
      ∃ f : Frame τ, f.node = n ∧ Standing s [f.doing (.start is)] (s.run b n none).2 ∧
        ∃ es, Passage s (s.run b n none).2 [] es := by
  obtain ⟨text, ht⟩ := run_pushes b hs.opened (hl n hn) hb
    (by rw [hs.stack]; show 0 < Limits.maxFrameDepth; decide)
  rw [ht]
  refine ⟨rfl, s.newFrame n text (.native (.start is)), rfl, ?_, push_passage s n text _⟩
  rw [push_eq]
  constructor
  · simp [hs.stack, newFrame, Frame.doing]
  · simp [hs.state]
  · rfl
  · rfl
  · rfl
  · exact hs.opened
  · exact hs.hasRunner
  · simp
  · simp [newFrame, Frame.doing]
  · simp [newFrame, Frame.doing]

/-- A run that nothing disturbs hands over exactly the instructions that are read off the macro, in
this order; then the macro has been completed, and nothing is running any more. -/
theorem run_hands_execution (b : Bridge τ) {o : Oracle σ τ} {s : Session σ τ} {n : NodeId}
    (hs : s.Waits) (hr : s.Regular o) (hn : n ∈ s.tree.leaves) (hb : (s.built n).isSome)
    (hu : (s.run b n none).2.Undisturbed (.ofOracle b o) b) :
    (s.run b n none).1 = .ok true ∧
      ∃ k, s.Performed n (s.execution Limits.maxFrameDepth n)
          ((s.run b n none).2.ticks (.ofOracle b o) b k) ∧
        ∀ j, (s.run b n none).2.ticks (.ofOracle b o) b (k + j) =
          (s.run b n none).2.ticks (.ofOracle b o) b k := by
  obtain ⟨is, hb⟩ := Option.isSome_iff_exists.1 hb
  obtain ⟨hx, f, hf, hst, es, hp⟩ := run_standing b hs hr.native hn hb
  have h := runs (b := b) hr Limits.maxFrameDepth [] f n is (Nat.zero_add _) (by decide) hn hb
  obtain ⟨k, es', h1, hp'⟩ := h _ hst hu
  have hnews := news_eq (hp.trans hp').journal
  have hi : ((s.run b n none).2.ticks (.ofOracle b o) b k).state = .idle := by rw [h1.state]; rfl
  refine ⟨hx, k, ⟨?_, ?_, ?_, hi, h1.stack⟩, fun j => ?_⟩
  · rw [hnews]
    exact (hp.trans hp').handed
  · have hlabel : (f.id, s.tree.name n) ∈ (s.run b n none).2.labels := by
      rw [labels, hst.stack]
      simp [nameOf, hst.tree, hf, Frame.doing]
    have hgone := (hp'.gone _ hlabel).resolve_left (by simp [labels, h1.stack])
    rw [hnews]
    exact List.mem_append_left _ hgone
  · rw [hnews]
    exact (hp.trans hp').completed
  · rw [ticks_add, ticks_idle _ _ hi]

/-- A loop within a loop, around a macro with a loop of its own. -/
def rounds : Session Unit Lines :=
  .waiting [.native "A" "/send X\n/loop 1\n/runmacro B\n/loop 1", .native "B" "/send Y\n/loop 1"] ()

theorem regular_still {s : Session σ τ} (hu : s.settings.Usable) (hl : AllNative s.tree)
    (hd : s.Definite) (hx : s.registry.Extended) : s.Regular .still :=
  ⟨⟨fun _ => rfl, fun _ _ => answered_ok _, fun _ => answered_ok _, fun _ _ => rfl⟩, hu, hl, hd, hx⟩

theorem rounds_hand_execution :
    (rounds.execution Limits.maxFrameDepth 0).map (·.text) =
        ["/send X", "/loop 1", "/send X", "/loop 1", "/runmacro B",
          "/send Y", "/loop 1", "/send Y", "/loop 1", "/loop 1",
          "/send X", "/loop 1", "/send X", "/loop 1", "/runmacro B",
          "/send Y", "/loop 1", "/send Y", "/loop 1", "/loop 1"] ∧
      (rounds.run (.listed []) 0 none).1 = .ok true ∧
      ∃ k, rounds.Performed 0 (rounds.execution Limits.maxFrameDepth 0)
          ((rounds.run (.listed []) 0 none).2.ticks (.ofOracle (.listed []) .still) (.listed []) k) ∧
        ∀ j, (rounds.run (.listed []) 0 none).2.ticks (.ofOracle (.listed []) .still) (.listed [])
            (k + j) =
          (rounds.run (.listed []) 0 none).2.ticks (.ofOracle (.listed []) .still) (.listed []) k := by
  refine ⟨by decide +kernel, run_hands_execution (.listed []) ⟨rfl, rfl, rfl, rfl⟩ ?_ ?_ ?_ ?_⟩
  · refine regular_still ⟨⟨false, rfl⟩, fun kind => ?_⟩ (by decide +kernel) (by decide +kernel) .builtin
    cases kind <;> exact ⟨_, rfl⟩
  · decide +kernel
  · decide +kernel
  · exact undisturbed_of_idle (k := 20) (by decide +kernel) (by decide +kernel)

end Session

end Macros
