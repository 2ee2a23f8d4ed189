import Macros.Proofs.Scheduler.Driver

/-!
Lines under way. A line is in flight from the moment at which the driver hands it over until it has
landed, which is when it has come to something; an advance is what leads up to the flight of a line,
the flight, and what follows.
-/

namespace Macros

open Relation Session

variable {σ τ : Type}

/-- Where a line comes from: a place in a native macro, or a script that yielded its text. -/
inductive Origin
  | native (index : Nat)
  | script (text : String)

/-- What stays of a frame while it works. -/
def Frame.tag (f : Frame τ) : Nat × NodeId × String × Bool × Bool :=
  (f.id, f.node, f.text, f.pauseAtLoop, f.stopAtLoop)

/-- A line as it is handed over, with the session at that moment. -/
structure Flight (σ τ : Type) where
  session : Session σ τ
  frame : Frame τ
  line : Instruction
  origin : Origin

namespace Flight

/-- What the line comes to, and the session when it has landed. -/
def landed (l : Flight σ τ) (c : Client σ τ) (b : Bridge τ) : Except Fault LineResult × Session σ τ :=
  l.session.perform c b l.frame l.line

/-- What the driver does once the line has landed. -/
def follow (l : Flight σ τ) (s : Session σ τ) (x : LineResult) : Except Fault Bool × Session σ τ :=
  match l.origin with
  | .native k => s.afterNative l.frame.id k l.line x
  | .script text => s.afterScript l.frame.id text l.line x

/-- The flight, and what follows. -/
def conclude (l : Flight σ τ) (c : Client σ τ) (b : Bridge τ) : Except Fault Bool × Session σ τ :=
  match l.landed c b with
  | (.error e, s) => (.error e, s)
  | (.ok x, s) => l.follow s x

end Flight

namespace Session

def nativeFlight? (s : Session σ τ) (f : Frame τ) (w : NativeWork) : Option (Flight σ τ) :=
  w.instructions[w.cursor]?.map fun i => ⟨s.stepOver f.id, f, i, .native w.cursor⟩

/-- A line that a script yielded is handed over if it can be read and says something. -/
def lineFlight? (s : Session σ τ) (f : Frame τ) (line : String) (number : Int) :
    Option (Flight σ τ) :=
  match Line.read s.registry line number with
  | .ok (some i) => some ⟨s.emitStatus, f, i, .script line⟩
  | _ => none

def scriptFlight? (c : Client σ τ) (b : Bridge τ) (s : Session σ τ) (f : Frame τ)
    (w : ScriptWork τ) : Option (Flight σ τ) :=
  match w.pendingLine with
  | some line =>
    (s.modifyScript f.id fun w => { w with pendingLine := none }).lineFlight? f line (w.steps - 1)
  | none =>
    match s.scriptStep c b f w with
    | (.ok (some line), s) =>
      (s.modifyScript f.id fun w => { w with steps := w.steps + 1 }).lineFlight? f line w.steps
    | _ => none

def topFlight? (c : Client σ τ) (b : Bridge τ) (s : Session σ τ) : Option (Flight σ τ) :=
  match s.top? with
  | none => none
  | some f =>
    match f.work with
    | .native w => s.nativeFlight? f w
    | .script w => s.scriptFlight? c b f w

/-- The line that an advance hands over. -/
def flight? (c : Client σ τ) (b : Bridge τ) (s : Session σ τ) : Option (Flight σ τ) :=
  s.begin.topFlight? c b

/-- The line that a tick hands over. -/
def tickFlight? (c : Client σ τ) (b : Bridge τ) (s : Session σ τ) : Option (Flight σ τ) :=
  if (s.recover c).state = .running ∧ (c.ready (s.recover c)).1 then (s.tickStart c).flight? c b
  else none

/-- The line that a step hands over. -/
def stepFlight? (c : Client σ τ) (b : Bridge τ) (s : Session σ τ) : Option (Flight σ τ) :=
  if s.state = .paused ∧ ¬s.stack.isEmpty ∧ (c.ready s).1 then (s.stepStart c).flight? c b
  else none

variable {c : Client σ τ} {o : Oracle σ τ} {b : Bridge τ} {s s' s'' : Session σ τ} {f : Frame τ}
  {l : Flight σ τ}

/-! An advance that hands a line over is the flight of that line. -/

theorem advanceNative_flight {w : NativeWork} (h : s.nativeFlight? f w = some l) :
    s.advanceNative c b f w = l.conclude c b := by
  obtain ⟨i, hi, rfl⟩ := Option.map_eq_some_iff.1 h
  unfold advanceNative
  rw [hi]
  rfl

theorem scriptLine_flight {line : String} {k : Int} (h : s.lineFlight? f line k = some l) :
    s.scriptLine c b f line k = l.conclude c b := by
  unfold lineFlight? at h
  split at h
  · next hr =>
    obtain rfl := Option.some.inj h
    have hr : Line.read s.emitStatus.registry line k = _ := hr
    simp only [scriptLine, hr]
    rfl
  · simp at h

theorem advanceScript_flight {w : ScriptWork τ} (h : s.scriptFlight? c b f w = some l) :
    s.advanceScript c b f w = l.conclude c b := by
  unfold scriptFlight? at h
  unfold advanceScript
  cases hp : w.pendingLine with
  | some line =>
    rw [hp] at h
    exact scriptLine_flight h
  | none =>
    rw [hp] at h
    dsimp only at h ⊢
    cases hr : s.scriptStep c b f w with
    | mk x t =>
      rw [hr] at h
      rcases x with m | _ | line
      · simp at h
      · simp at h
      · exact scriptLine_flight h

theorem advance_flight (h : s.flight? c b = some l) : s.advance c b = l.conclude c b := by
  unfold flight? topFlight? at h
  unfold advance advanceTop
  cases ht : s.begin.top? with
  | none => simp [ht] at h
  | some f =>
    rw [ht] at h
    dsimp only at h ⊢
    cases hw : f.work with
    | native w =>
      rw [hw] at h
      exact advanceNative_flight h
    | script w =>
      rw [hw] at h
      exact advanceScript_flight h

theorem tick_flight (h : s.tickFlight? c b = some l) : s.tick c b = l.conclude c b := by
  unfold tickFlight? at h
  split at h
  · next hr =>
    rw [← advance_flight h]
    unfold tick tickStart
    simp [hr]
  · simp at h

/-- Where a tick begins to advance by which a line is handed over. -/
theorem tickFlight?_some (h : s.tickFlight? c b = some l) :
    (s.recover c).state = .running ∧ (s.tickStart c).flight? c b = some l := by
  unfold tickFlight? at h
  split at h
  · next hr => exact ⟨hr.1, h⟩
  · simp at h

/-- A tick without a flight: the run does not go on, or the client is away, or nothing is handed
over. -/
theorem tickFlight?_none (h : s.tickFlight? c b = none) :
    ((s.recover c).state ≠ .running ∧ s.tick c b = (.ok false, s.recover c)) ∨
    ((s.recover c).state = .running ∧ s.tick c b = (.ok false, (s.tickStart c).enterNotReady)) ∨
    ((s.recover c).state = .running ∧ (s.tickStart c).flight? c b = none ∧
      s.tick c b = (s.tickStart c).advance c b) := by
  unfold tickFlight? at h
  unfold tick
  dsimp only
  by_cases hr : (s.recover c).state = .running
  · by_cases hy : (c.ready (s.recover c)).1 = true
    · rw [if_pos ⟨hr, hy⟩] at h
      refine .inr (.inr ⟨hr, h, ?_⟩)
      simp [hr, hy, tickStart]
    · refine .inr (.inl ⟨hr, ?_⟩)
      simp [hr, hy, tickStart]
  · exact .inl ⟨hr, by simp [hr]⟩

/-- Frames went on with their work, values were sent into scripts, and observers were told
something. -/
def Worked (s s' : Session σ τ) : Prop :=
  ∃ (fs : List (Frame τ)) (es : List Event), (∀ e ∈ es, e.isRemark ∨ ∃ id v, e = .sent id v) ∧
    fs.map (·.tag) = s.stack.map (·.tag) ∧ s' = { s with stack := fs, journal := es ++ s.journal }

theorem Worked.trans (h : Worked s s') (h' : Worked s' s'') : Worked s s'' := by
  obtain ⟨fs, es, he, hf, rfl⟩ := h
  obtain ⟨fs', es', he', hf', rfl⟩ := h'
  exact ⟨fs', es' ++ es, List.forall_mem_append.2 ⟨he', he⟩, hf'.trans hf, by simp⟩

theorem Remarked.worked (h : Remarked s s') : Worked s s' := by
  obtain ⟨es, he, rfl⟩ := h
  exact ⟨s.stack, es, fun e hm => .inl (he e hm), rfl, rfl⟩

theorem modifyNative_worked (s : Session σ τ) (id : Nat) (g : NativeWork → NativeWork) :
    Worked s (s.modifyNative id g) :=
  ⟨_, [], by simp, modifyNative_map (p := Frame.tag) (fun _ _ => rfl) s id g, rfl⟩

theorem modifyScript_worked (s : Session σ τ) (id : Nat) (g : ScriptWork τ → ScriptWork τ) :
    Worked s (s.modifyScript id g) :=
  ⟨_, [], by simp, modifyScript_map (p := Frame.tag) (fun _ _ => rfl) s id g, rfl⟩

/-- The frames stand where they may. -/
structure Readied (s s' : Session σ τ) : Prop where
  worked : Worked s s'
  sound : s.Sound → s'.Sound

theorem Readied.trans (h : Readied s s') (h' : Readied s' s'') : Readied s s'' :=
  ⟨h.worked.trans h'.worked, fun hs => h'.sound (h.sound hs)⟩

theorem Remarked.readied (h : Remarked s s') : Readied s s' :=
  ⟨h.worked, (h.changes (o := .still)).sound⟩

theorem modifyScript_readied (s : Session σ τ) (id : Nat) (g : ScriptWork τ → ScriptWork τ) :
    Readied s (s.modifyScript id g) :=
  ⟨modifyScript_worked s id g, (script_change (o := .still) s id g).sound⟩

theorem stepOver_readied {w : NativeWork} {i : Instruction} (hf : f ∈ s.stack)
    (hw : f.work = .native w) (hi : w.instructions[w.cursor]? = some i) :
    Readied s (s.stepOver f.id) :=
  ⟨(modifyNative_worked s f.id _).trans (remarked_emitStatus _).worked,
    fun h => (stepOver_spec (o := .still) h hf hw hi).1.sound h⟩

/-- A script may call the host before it yields its line, and that is all that others can come in
by. -/
theorem scriptStep_readied (c : Client σ τ) (b : Bridge τ) (s : Session σ τ) (f : Frame τ)
    (w : ScriptWork τ) :
    ∃ n t, Readied s t ∧ Readied (hostCalls c n t) (s.scriptStep c b f w).2 := by
  unfold scriptStep
  split
  · exact ⟨0, s, (Remarked.refl s).readied, modifyScript_readied s f.id _⟩
  · exact ⟨0, s, (Remarked.refl s).readied, modifyScript_readied s f.id _⟩
  · next run a _ =>
    have h1 : Readied s (s.record (.sent f.id (if w.run.started then w.pendingResult else .null))) :=
      ⟨⟨s.stack, [.sent f.id _], by simp, rfl, rfl⟩, fun h => h.of_eq rfl rfl rfl rfl⟩
    exact ⟨a.hostCalls, _, h1.trans (modifyScript_readied _ f.id _), modifyScript_readied _ f.id _⟩

theorem lineFlight_readied {line : String} {k : Int} (h : s.lineFlight? f line k = some l) :
    Readied s l.session ∧ l.frame = f := by
  unfold lineFlight? at h
  split at h
  · obtain rfl := Option.some.inj h
    exact ⟨(remarked_emitStatus s).readied, rfl⟩
  · simp at h

theorem scriptFlight_readied {w : ScriptWork τ} (h : s.scriptFlight? c b f w = some l) :
    (∃ n t, Readied s t ∧ Readied (hostCalls c n t) l.session) ∧ l.frame = f := by
  unfold scriptFlight? at h
  split at h
  · obtain ⟨h1, h2⟩ := lineFlight_readied h
    exact ⟨⟨0, s, (Remarked.refl s).readied, (modifyScript_readied s f.id _).trans h1⟩, h2⟩
  · obtain ⟨n, t, ht, hr⟩ := scriptStep_readied c b s f w
    split at h
    · next he =>
      rw [he] at hr
      obtain ⟨h1, h2⟩ := lineFlight_readied h
      exact ⟨⟨n, t, ht, (hr.trans (modifyScript_readied _ f.id _)).trans h1⟩, h2⟩
    · simp at h

/-- What leads up to a flight: the innermost frame is made ready, and its script calls the host. -/
theorem flight_readied (h : s.flight? c b = some l) :
    s.begin.top? = some l.frame ∧ ∃ n t, Readied s.begin t ∧ Readied (hostCalls c n t) l.session := by
  unfold flight? topFlight? at h
  split at h
  · simp at h
  · next f ht =>
    rw [ht]
    split at h
    · next hw =>
      obtain ⟨i, hi, rfl⟩ := Option.map_eq_some_iff.1 h
      exact ⟨rfl, 0, s.begin, (Remarked.refl _).readied, stepOver_readied (top?_mem ht) hw hi⟩
    · obtain ⟨h1, h2⟩ := scriptFlight_readied h
      exact ⟨by rw [h2], h1⟩

/-! An advance without a flight. -/

/-- A line of a script that cannot be read, or says nothing. -/
theorem scriptLine_grounded {line : String} {k : Int} (h : s.lineFlight? f line k = none) :
    (s.scriptLine c b f line k).1 = .ok true ∧ Readied s (s.scriptLine c b f line k).2 := by
  have h1 := (remarked_emitStatus s).readied
  unfold lineFlight? at h
  unfold scriptLine
  dsimp only
  split
  · exact ⟨rfl, (h1.trans (remarked_log _ _ _).readied).trans (modifyScript_readied _ f.id _)⟩
  · exact ⟨rfl, h1.trans (modifyScript_readied _ f.id _)⟩
  · next hr => simp [show Line.read s.registry line k = _ from hr] at h

/-- An advance of a script without a flight: its line leads to nothing, or it has ended. -/
theorem advanceScript_grounded {w : ScriptWork τ} (h : s.scriptFlight? c b f w = none) :
    (s.advanceScript c b f w).1 = .ok true ∧
      ∃ n t u, Readied s t ∧ Readied (hostCalls c n t) u ∧
        ((s.advanceScript c b f w).2 = u ∨
          ∃ r ≠ .stopped, (s.advanceScript c b f w).2 = u.popIfOwned f.id r) := by
  unfold scriptFlight? at h
  unfold advanceScript
  cases hp : w.pendingLine with
  | some line =>
    rw [hp] at h
    obtain ⟨h1, h2⟩ := scriptLine_grounded (c := c) (b := b) h
    exact ⟨h1, 0, s, _, (Remarked.refl s).readied, (modifyScript_readied s f.id _).trans h2, .inl rfl⟩
  | none =>
    obtain ⟨n, t, ht, hr⟩ := scriptStep_readied c b s f w
    rw [hp] at h
    dsimp only at h ⊢
    cases he : s.scriptStep c b f w with
    | mk x u =>
      rw [he] at hr h
      rcases x with m | _ | line
      · exact ⟨rfl, n, t, _, ht, hr.trans (remarked_log u _ _).readied, .inr ⟨_, by simp, rfl⟩⟩
      · exact ⟨rfl, n, t, u, ht, hr, .inr ⟨_, by simp, rfl⟩⟩
      · obtain ⟨h1, h2⟩ := scriptLine_grounded (c := c) (b := b) h
        exact ⟨h1, n, t, _, ht, (hr.trans (modifyScript_readied u f.id _)).trans h2, .inl rfl⟩

/-- An advance without a flight: nothing is left to advance, or a macro has come to its end, or a script
was resumed and came to no line. -/
theorem advance_grounded (h : s.flight? c b = none) :
    (s.begin.stack = [] ∧ s.advance c b = (.ok false, s.begin.setState .idle)) ∨
    (∃ f ∈ s.begin.stack, s.advance c b = (.ok true, s.begin.pop f .completed)) ∨
    (s.advance c b).1 = .ok true ∧
      ∃ n t u, Readied s.begin t ∧ Readied (hostCalls c n t) u ∧
        ((s.advance c b).2 = u ∨ ∃ id, ∃ r ≠ .stopped, (s.advance c b).2 = u.popIfOwned id r) := by
  unfold flight? topFlight? at h
  unfold advance advanceTop
  cases ht : s.begin.top? with
  | none => exact .inl ⟨List.getLast?_eq_none_iff.1 ht, rfl⟩
  | some f =>
    rw [ht] at h
    dsimp only at h ⊢
    cases hw : f.work with
    | native w =>
      rw [hw] at h
      refine .inr (.inl ⟨f, top?_mem ht, ?_⟩)
      dsimp only
      unfold advanceNative
      rw [Option.map_eq_none_iff.1 h]
    | script w =>
      rw [hw] at h
      obtain ⟨h1, n, t, u, ht, hu, hr⟩ := advanceScript_grounded h
      exact .inr (.inr ⟨h1, n, t, u, ht, hu, hr.imp_right fun hr => ⟨f.id, hr⟩⟩)

/-! Without a flight nothing is handed over. -/

/-- No line has been handed over. -/
def Grounded (s s' : Session σ τ) : Prop :=
  ∃ es : List Event, (∀ id i, .handed id i ∉ es) ∧ s'.journal = es ++ s.journal

theorem Grounded.trans (h : Grounded s s') (h' : Grounded s' s'') : Grounded s s'' := by
  obtain ⟨es, he, hj⟩ := h
  obtain ⟨es', he', hj'⟩ := h'
  refine ⟨es' ++ es, fun id i hm => ?_, by rw [hj', hj, List.append_assoc]⟩
  rcases List.mem_append.1 hm with hm | hm
  · exact he' id i hm
  · exact he id i hm

theorem Reports.grounded (h : Reports s s') : Grounded s s' := by
  obtain ⟨es, he, hj⟩ := h
  exact ⟨es, fun id i hm => he _ hm rfl, hj⟩

theorem Worked.grounded (h : Worked s s') : Grounded s s' := by
  obtain ⟨fs, es, he, -, rfl⟩ := h
  refine ⟨es, fun id i hm => ?_, rfl⟩
  simpa [Event.isRemark] using he _ hm

theorem popIfOwned_grounded (s : Session σ τ) (id : Nat) (r : FrameResult) :
    Grounded s (s.popIfOwned id r) := by
  rcases popIfOwned_cases s id r with he | ⟨g, -, he⟩
  · rw [he]
    exact (Reports.refl s).grounded
  · rw [he]
    exact (pop_reports s g r).grounded

theorem enterNotReady_grounded (s : Session σ τ) : Grounded s s.enterNotReady := by
  rcases enterNotReady_cases s with he | ⟨-, -, hr⟩
  · rw [he]
    exact (Reports.refl s).grounded
  · exact Grounded.trans (setState_reports { s with prior := s.state } _).grounded hr.reports.grounded

theorem advance_hands_nothing (h : s.Sound) (hl : s.flight? (.ofOracle b o) b = none) :
    Grounded s (s.advance (.ofOracle b o) b).2 := by
  have hb : Grounded s s.begin := by
    unfold Session.begin
    split <;> exact (Reports.refl s).grounded
  have hs : s.begin.Sound := (begin_changes (o := o) s).sound h
  refine hb.trans ?_
  rcases advance_grounded hl with ⟨-, ha⟩ | ⟨f, -, ha⟩ | ⟨-, n, t, u, ht, hu, ha⟩
  · rw [ha]
    exact (setState_reports _ _).grounded
  · rw [ha]
    exact (pop_reports _ _ _).grounded
  · have h1 := ht.worked.grounded.trans
      (((meanwhile b o).hostCalls n (ht.sound hs)).reports.grounded.trans hu.worked.grounded)
    rcases ha with ha | ⟨id, r, -, ha⟩
    · rw [ha]
      exact h1
    · rw [ha]
      exact h1.trans (popIfOwned_grounded u id r)

theorem recover_reports (h : s.Sound) : Reports s (s.recover (.ofOracle b o)) := by
  unfold recover
  split
  · have h1 := ((meanwhile b o).respond .ready h).reports
    dsimp only
    split
    · exact (h1.trans (setState_reports _ _)).trans (remarked_log _ _ _).reports
    · exact h1
  · exact .refl s

/-- A tick hands over a line only if one is in flight by it. -/
theorem tick_hands_nothing (h : s.Sound) (hl : s.tickFlight? (.ofOracle b o) b = none) :
    Grounded s (s.tick (.ofOracle b o) b).2 := by
  have h0 := (recover_reports (o := o) (b := b) h).grounded
  have h1 := Changes.sound (recover_changes (o := o) (b := b) h) h
  have h2 := tickStart_meanwhile (o := o) (b := b) h
  have h3 := h0.trans h2.reports.grounded
  rcases tickFlight?_none hl with ⟨-, ht⟩ | ⟨-, ht⟩ | ⟨-, hn, ht⟩
  · rw [ht]
    exact h0
  · rw [ht]
    exact h3.trans (enterNotReady_grounded _)
  · rw [ht]
    exact h3.trans (advance_hands_nothing (h2.changes.sound h1) hn)

theorem step_hands_nothing (h : s.Sound) (hl : s.stepFlight? (.ofOracle b o) b = none) :
    Grounded s (s.step (.ofOracle b o) b).2 := by
  have h1 := stepStart_meanwhile (o := o) (b := b) h
  unfold stepFlight? at hl
  unfold step
  split
  · exact (Reports.refl s).grounded
  · next hr =>
    dsimp only
    split
    · exact h1.reports.grounded.trans (enterNotReady_grounded _)
    · next hy =>
      have hr : s.state = .paused ∧ ¬s.stack.isEmpty := by simpa using hr
      rw [if_pos ⟨hr.1, hr.2, by simpa using hy⟩] at hl
      have h2 := h1.reports.grounded.trans (advance_hands_nothing (h1.changes.sound h) hl)
      split
      · next ha =>
        rw [stepStart, ha] at h2
        exact h2
      · next ha =>
        rw [stepStart, ha] at h2
        split
        · exact h2.trans (setState_reports _ _).grounded
        · exact h2

/-! The session when a line is handed over. -/

theorem Worked.suffix (h : Worked s s') : s.journal <:+ s'.journal := by
  obtain ⟨fs, es, -, -, rfl⟩ := h
  exact List.suffix_append _ _

theorem Worked.nextId (h : Worked s s') : s'.nextId = s.nextId := by
  obtain ⟨fs, es, -, -, rfl⟩ := h
  rfl

/-- The session of a flight is as sound as the one before, and the frame of the line was there. -/
theorem flight_spec (h : s.Sound) (hl : s.flight? (.ofOracle b o) b = some l) :
    l.session.Sound ∧ s.journal <:+ l.session.journal ∧ l.frame.id < l.session.nextId := by
  obtain ⟨ht, n, t, hr, hr'⟩ := flight_readied hl
  have hb := begin_changes (o := o) s
  have hs := hr.sound (hb.sound h)
  have hm := (meanwhile b o).hostCalls n hs
  refine ⟨hr'.sound (hm.changes.sound hs), ?_, ?_⟩
  · exact hb.journal_suffix.trans
      (hr.worked.suffix.trans (hm.changes.journal_suffix.trans hr'.worked.suffix))
  · rw [hr'.worked.nextId]
    refine Nat.lt_of_lt_of_le ?_ hm.nextId_le
    rw [hr.worked.nextId]
    exact (hb.sound h).fresh _ (top?_mem ht)

/-- The session as the advance begins by which a tick or a step hands its line over. -/
theorem operation_flight (h : s.Sound)
    (hl : s.tickFlight? (.ofOracle b o) b = some l ∨ s.stepFlight? (.ofOracle b o) b = some l) :
    ∃ t, Changes o s t ∧ t.flight? (.ofOracle b o) b = some l := by
  rcases hl with hl | hl
  · exact ⟨_, (recover_changes h).trans (tickStart_meanwhile h).changes, (tickFlight?_some hl).2⟩
  · unfold stepFlight? at hl
    split at hl
    · exact ⟨_, (stepStart_meanwhile h).changes, hl⟩
    · simp at hl

/-! The moments of a flight. -/

/-- The sessions that a routine passes through: whenever it asks for something, and at its end. -/
inductive Passes {α : Type} (c : Client σ τ) (b : Bridge τ) :
    Routine α → Session σ τ → Session σ τ → Prop
  | here (r : Routine α) (s : Session σ τ) : Passes c b r s s
  | on {e : Effect} {next : e.Answer → Routine α} {s m : Session σ τ}
    (h : Passes c b (next (answer c b e s).1) (answer c b e s).2 m) :
    Passes c b (.perform e next) s m

theorem Admits.passes {R : Session σ τ → Session σ τ → Prop} {α : Type} {r : Routine α}
    {m : Session σ τ} (hR : Admits b o R) (h : s.Sound) (hh : s.HandsOver)
    (hp : Passes (.ofOracle b o) b r s m) : R s m ∧ m.Sound := by
  induction hp with
  | here r s => exact ⟨hR.refl s, h⟩
  | @on e next s m _ ih =>
    have h1 := (meanwhile b o).answer h hh e
    obtain ⟨h2, h3⟩ := ih (h1.changes.sound h) (h1.reports.handsOver hh)
    exact ⟨hR.trans (hR.answer h hh e) h2, h3⟩

end Session

namespace Flight

/-- A session while the line is under way: the client has been asked for something, and any control
calls have come in since. -/
def Moment (l : Flight σ τ) (c : Client σ τ) (b : Bridge τ) (m' : Session σ τ) : Prop :=
  ∃ m x cs, Passes c b (Execution.execute l.session.settings l.line).run
    (l.session.record (.handed l.frame.id l.line)) m ∧ m' = ({ m with client := x }).land b cs

/-- What is respected while the driver waits is respected at every moment of a flight. -/
theorem Moment.respects {o : Oracle σ τ} {b : Bridge τ} {R : Session σ τ → Session σ τ → Prop}
    (hR : Respects b o R) (hx : ∀ s x, R s { s with client := x }) {l : Flight σ τ}
    {m : Session σ τ} (h : l.session.Sound) (hm : l.Moment (.ofOracle b o) b m) :
    R (l.session.record (.handed l.frame.id l.line)) m := by
  obtain ⟨m, x, cs, hp, rfl⟩ := hm
  obtain ⟨h1, h2⟩ := hR.passes (s := l.session.record (.handed l.frame.id l.line))
    (h.of_eq rfl rfl rfl rfl) ⟨l.frame.id, l.line, by simp [record]⟩ hp
  exact hR.trans h1 (hR.trans (hx m x) (hR.land cs (h2.of_eq rfl rfl rfl rfl)))

end Flight

end Macros
