import Macros.Proofs.Execution.Command
import Macros.Proofs.Scheduler.Outside

/-!
A client that is always there, while no control calls come in. A line that starts no macro then
changes nothing that the driver looks at, and a macro that a line starts is pushed if it builds.
-/

namespace Macros

open Session

variable {σ τ : Type}

/-- No control calls come in. -/
def Oracle.Silent (o : Oracle σ τ) : Prop := ∀ k s, (o k s).2.1 = []

/-- The client is always there, and no control calls come in. -/
structure Oracle.Steady (o : Oracle σ τ) : Prop where
  ready : ∀ s, (o .ready s).1 = true
  ask : ∀ r s, Answered (o (.ask r) s).1
  condition : ∀ s, Answered (o .condition s).1
  still : o.Silent

namespace Act

variable {α β : Type} (c : Client σ τ) (b : Bridge τ)

/-- A routine is carried out. -/
def play (m : Act α) (s : Session σ τ) : Except Fault α × Session σ τ := m.run.run (answer c b) s

theorem play_bind (m : Act α) (f : α → Act β) (s : Session σ τ) : (m >>= f).play c b s =
    match (m.play c b s).1 with
    | .ok a => (f a).play c b (m.play c b s).2
    | .error e => (.error e, (m.play c b s).2) := by
  refine (Routine.run_bind _ m.run (ExceptT.bindCont f) s).trans ?_
  unfold play
  cases (m.run.run (answer c b) s).1 <;> rfl

theorem play_tryCatch (m : Act α) (f : Fault → Act α) (s : Session σ τ) :
    (MonadExcept.tryCatch m f).play c b s =
      match (m.play c b s).1 with
      | .ok a => (.ok a, (m.play c b s).2)
      | .error e => (f e).play c b (m.play c b s).2 := by
  refine (Routine.run_bind _ m.run _ s).trans ?_
  unfold play
  cases (m.run.run (answer c b) s).1 <;> rfl

theorem play_throw (e : Fault) (s : Session σ τ) :
    (throw e : Act α).play c b s = (.error e, s) := rfl

/-- A routine that starts a macro goes on with whether it could be started. -/
theorem play_launch {o : Oracle σ τ} {b : Bridge τ} {name : Value} {m : Act α}
    {next : Except Fault Unit → Routine (Except Fault α)} (hn : m.run = .perform (.start name) next)
    (s : Session σ τ) : m.play (.ofOracle b o) b s =
      play (.ofOracle b o) b (ExceptT.mk (next (s.runNested b name).1) : Act α)
        (s.runNested b name).2 := by
  unfold play
  rw [hn]
  rfl

end Act

namespace Session

/-- The client went on, an earlier stop may have been forgotten, and observers were told
something. -/
def Aside (s s' : Session σ τ) : Prop :=
  ∃ (es : List Event) (x : σ) (p q : Bool), (∀ e ∈ es, e.isRemark) ∧
    s' = { s with client := x, freshRun := p, stopEvent := q, journal := es ++ s.journal }

variable {o : Oracle σ τ} {b : Bridge τ} {s s' s'' : Session σ τ}

theorem Remarked.aside (h : Remarked s s') : Aside s s' := by
  obtain ⟨es, he, rfl⟩ := h
  exact ⟨es, s.client, s.freshRun, s.stopEvent, he, rfl⟩

theorem Aside.refl (s : Session σ τ) : Aside s s := (Remarked.refl s).aside

theorem Aside.trans (h : Aside s s') (h' : Aside s' s'') : Aside s s'' := by
  obtain ⟨es, _, _, _, he, rfl⟩ := h
  obtain ⟨es', x, p, q, he', rfl⟩ := h'
  exact ⟨es' ++ es, x, p, q, List.forall_mem_append.2 ⟨he', he⟩, by simp⟩

theorem respond_silent (ho : o.Silent) (k : Call) (s : Session σ τ) :
    o.respond b k s = ((o k s).1, { s with client := (o k s).2.2 }) := by
  have h : o.respond b k s = ((o k s).1, { s with client := (o k s).2.2 }.land b (o k s).2.1) := rfl
  rw [h, ho k s]
  rfl

theorem client_aside (s : Session σ τ) (x : σ) : Aside s { s with client := x } :=
  ⟨[], x, s.freshRun, s.stopEvent, by simp, rfl⟩

theorem respond_aside (ho : o.Silent) (k : Call) (s : Session σ τ) :
    Aside s (o.respond b k s).2 := by
  rw [respond_silent ho]
  exact client_aside s _

theorem answer_aside (ho : o.Silent) {e : Effect} (he : e.startsMacro = false) (s : Session σ τ) :
    Aside s (answer (.ofOracle b o) b e s).2 := by
  cases e with
  | ask r => exact respond_aside ho (.ask r) s
  | condition => exact respond_aside ho .condition s
  | sleep t => exact respond_aside ho (.sleep t) s
  | stopped => exact .refl s
  | draw => exact respond_aside ho .draw s
  | start name => simp [Effect.startsMacro] at he
  | log level message => exact (remarked_say s level message).aside

theorem answer_fits (ho : o.Steady) {e : Effect} (he : e.startsMacro = false) (s : Session σ τ) :
    e.Fits (answer (.ofOracle b o) b e s).1 := by
  cases e with
  | ask r => exact ho.ask r s
  | condition => exact ho.condition s
  | start name => simp [Effect.startsMacro] at he
  | _ => trivial

/-- A routine that starts no macro leaves the frames alone. -/
theorem run_startless {α : Type} (ho : o.Silent) {r : Routine α} (h : r.Startless) (s : Session σ τ) :
    Aside s (r.run (answer (.ofOracle b o) b) s).2 := by
  induction r generalizing s with
  | done a => exact .refl s
  | perform e next ih => exact (answer_aside ho h.1 s).trans (ih _ (h.2 _) _)

theorem run_steady {α : Type} {Q : α → Prop} (ho : o.Steady) {r : Routine α} (h : r.Quiet Q)
    (s : Session σ τ) :
    Q (r.run (answer (.ofOracle b o) b) s).1 ∧
      Aside s (r.run (answer (.ofOracle b o) b) s).2 := by
  induction r generalizing s with
  | done a => exact ⟨h, .refl s⟩
  | perform e next ih =>
    obtain ⟨hq, ha⟩ := ih _ (h.2 _ (answer_fits ho h.1 s)) _
    exact ⟨hq, (answer_aside ho.still h.1 s).trans ha⟩

/-- What a line comes to, and the session then. -/
def lineRun (c : Client σ τ) (b : Bridge τ) (s : Session σ τ) (f : Frame τ) (i : Instruction) :
    Except Fault Outcome × Session σ τ :=
  (Execution.execute s.settings i).run.run (answer c b) (s.record (.handed f.id i))

/-- A line of a client that is there comes to an outcome, if it ends. -/
theorem perform_answered {c : Client σ τ} {f : Frame τ} {i : Instruction}
    (h : Answered (s.lineRun c b f i).1) (he : (s.perform c b f i).1 ≠ .error .endless) :
    (s.lineRun c b f i).1 ≠ .error .endless ∧
      ∃ x u, (∀ y, (s.lineRun c b f i).1 = .ok y → x = y) ∧ Remarked (s.lineRun c b f i).2 u ∧
        s.perform c b f i = (.ok (some x), u.record (.settled f.id i x)) := by
  unfold Session.perform at he ⊢
  dsimp only at he ⊢
  split
  · next o t hr =>
    have hr : s.lineRun c b f i = (.ok o, t) := hr
    rw [hr]
    exact ⟨by simp, o, t, fun y hy => Except.ok.inj hy, .refl t, rfl⟩
  · next m t hr =>
    have hr : s.lineRun c b f i = (.error (.unavailable m), t) := hr
    rw [hr] at h
    exact absurd rfl (h m)
  · next hr =>
    rw [hr] at he
    exact absurd rfl he
  · next e t _ hn hr =>
    have hr : s.lineRun c b f i = (.error e, t) := hr
    rw [hr]
    exact ⟨fun h => hn (Except.error.inj h), _, _, fun y hy => by simp at hy, remarked_log t _ _, rfl⟩

/-! Starting a native macro. -/

/-- The instructions that the contents of a native macro are run as. -/
def instructions? (s : Session σ τ) (body : Body) : Option (List Instruction) :=
  match s.runText body none with
  | .ok (.ok text) => (Line.readAll s.registry text).toOption
  | _ => none

/-- The instructions that a macro builds to; none if it does not build. -/
def built (s : Session σ τ) (n : NodeId) : Option (List Instruction) :=
  (s.tree.body? n).bind s.instructions?

theorem wrappedText_fault {body : Body} {e : Fault} (h : s.wrappedText body = .error e) :
    ∀ m, e ≠ .unavailable m := by
  intro m
  unfold wrappedText at h
  split at h
  · split at h
    · rw [← Except.error.inj h]; simp
    · split at h
      · rw [← Except.error.inj h]; simp
      · simp at h
    · simp at h
  · simp at h

theorem runText_fault {body : Body} {e : Fault} (h : s.runText body none = .error e) :
    ∀ m, e ≠ .unavailable m := by
  intro m
  unfold runText at h
  split at h
  · next hw =>
    obtain rfl := Except.error.inj h
    exact wrappedText_fault hw m
  · simp at h
  · simp at h
  · next hn => simp at hn
  · rw [← Except.error.inj h]; simp

theorem buildNative_of_built {body : Body} {is : List Instruction}
    (h : s.instructions? body = some is) (name : Value) :
    ∃ text, s.buildNative name body none = (.ok (some (text, .native (.start is))), s) := by
  unfold instructions? at h
  split at h
  · next text ht =>
    refine ⟨text, ?_⟩
    unfold buildNative
    rw [ht]
    dsimp only
    cases hr : Line.readAll s.registry text with
    | error e => rw [hr] at h; simp [Except.toOption] at h
    | ok js =>
      rw [hr] at h
      obtain rfl := Option.some.inj h
      rfl
  · simp at h

theorem buildNative_of_not_built {body : Body} (h : s.instructions? body = none) (name : Value) :
    (s.buildNative name body none).1 = .ok none ∨
      ∃ e, (s.buildNative name body none).1 = .error e ∧ ∀ m, e ≠ .unavailable m := by
  unfold instructions? at h
  unfold buildNative
  cases hr : s.runText body none with
  | error e => exact .inr ⟨e, rfl, runText_fault hr⟩
  | ok x =>
    cases x with
    | error e => exact .inl rfl
    | ok text =>
      rw [hr] at h
      dsimp only at h ⊢
      cases ha : Line.readAll s.registry text with
      | error e => exact .inl rfl
      | ok is => rw [ha] at h; simp [Except.toOption] at h

theorem Starts.remarked (h : Starts s false s') : Remarked s s' := by
  cases h with
  | nothing h => exact h

/-- A macro that builds is pushed while there is room. -/
theorem run_pushes (b : Bridge τ) {n : NodeId} {is : List Instruction} (hc : s.closed = false)
    (hl : ∀ body, s.tree.body? n = some body → body.language = .native)
    (hb : s.built n = some is) (hd : s.stack.length < Limits.maxFrameDepth) :
    ∃ text, s.run b n none = (.ok true, s.push n text (.native (.start is))) := by
  obtain ⟨body, hn, hi⟩ := Option.bind_eq_some_iff.1 hb
  obtain ⟨text, ht⟩ := buildNative_of_built hi (s.tree.name n)
  refine ⟨text, ?_⟩
  have hbuild : s.build b (s.tree.name n) body none = s.buildNative (s.tree.name n) body none := by
    unfold build
    rw [hl body hn]
  unfold run
  simp [hc, hn, hbuild, ht, Nat.not_le.2 hd]

theorem run_refuses (b : Bridge τ) {n : NodeId}
    (hl : ∀ body, s.tree.body? n = some body → body.language = .native)
    (h : s.closed = false → s.built n = none ∨ Limits.maxFrameDepth ≤ s.stack.length) :
    started (s.run b n none).1 = false ∧ Answered (s.run b n none).1 := by
  unfold run
  split
  · exact ⟨rfl, answered_ok _⟩
  · next hc =>
    have hc : s.closed = false := by simpa using hc
    cases hn : s.tree.body? n with
    | none => exact ⟨rfl, answered_ok _⟩
    | some body =>
      have hbuild : s.build b (s.tree.name n) body none = s.buildNative (s.tree.name n) body none := by
        unfold build
        rw [hl body hn]
      dsimp only
      rw [hbuild]
      cases hi : s.instructions? body with
      | none =>
        have hx := buildNative_of_not_built hi (s.tree.name n)
        cases hp : s.buildNative (s.tree.name n) body none with
        | mk x t =>
          rw [hp] at hx
          obtain rfl | ⟨e, rfl, hm⟩ := hx
          · exact ⟨rfl, answered_ok _⟩
          · exact ⟨rfl, answered_error.2 hm⟩
      | some is =>
        have hb : s.built n = some is := Option.bind_eq_some_iff.2 ⟨body, hn, hi⟩
        have hd : Limits.maxFrameDepth ≤ s.stack.length := (h hc).resolve_left (by simp [hb])
        obtain ⟨text, ht⟩ := buildNative_of_built hi (s.tree.name n)
        simp only [ht, hd, ↓reduceIte]
        exact ⟨rfl, answered_ok _⟩

theorem runNested_pushes (b : Bridge τ) {name : Value} {n : NodeId} {is : List Instruction}
    (hr : s.hasRunner) (hc : s.closed = false) (hn : s.tree.findLeaves name = [n])
    (hl : ∀ body, s.tree.body? n = some body → body.language = .native)
    (hb : s.built n = some is) (hd : s.stack.length < Limits.maxFrameDepth) :
    ∃ text, s.runNested b name = (.ok (), s.push n text (.native (.start is))) := by
  obtain ⟨text, ht⟩ := run_pushes b hc hl hb hd
  refine ⟨text, ?_⟩
  unfold runNested runByName
  simp [hr, hn, ht]

/-- A line that names no single macro, or one that does not build or finds no room, starts none. -/
theorem runNested_refuses (b : Bridge τ) {name : Value}
    (hl : ∀ n ∈ s.tree.leaves, ∀ body, s.tree.body? n = some body → body.language = .native)
    (h : ∀ n, s.tree.findLeaves name = [n] → s.hasRunner → s.closed = false →
      s.built n = none ∨ Limits.maxFrameDepth ≤ s.stack.length) :
    Answered (s.runNested b name).1 ∧ Remarked s (s.runNested b name).2 := by
  unfold runNested
  split
  · exact ⟨answered_error.2 fun m h => by simp [Execution.noRunner, Fault.failed] at h, .refl s⟩
  · next hr =>
    have hr : s.hasRunner = true := by simpa using hr
    have hs : started (s.runByName b name none).1 = false ∧
        Answered (s.runByName b name none).1 := by
      unfold runByName
      split
      · exact ⟨rfl, answered_error.2 fun m h => by simp at h⟩
      · next n hn =>
        have hm : n ∈ s.tree.findLeaves name := by simp [hn]
        exact run_refuses b (hl n (List.mem_filter.1 hm).1) (h n hn hr)
      · exact ⟨rfl, answered_error.2 fun m h => by simp at h⟩
    have ht := runByName_starts b s name none
    rw [hs.1] at ht
    split
    · next e t he =>
      rw [he] at hs ht
      exact ⟨answered_error.2 (answered_error.1 hs.2), ht.remarked⟩
    · next t he =>
      rw [he] at hs
      simp [started] at hs
    · next t he =>
      rw [he] at ht
      exact ⟨answered_error.2 fun m h => by simp [Fault.failed] at h, ht.remarked⟩

theorem build_answered (b : Bridge τ) (s : Session σ τ) (name : Value) (body : Body) :
    Answered (s.build b name body none).1 := by
  unfold build
  split
  · exact answered_ok _
  · unfold buildNative
    split
    · next hr => exact answered_error.2 (runText_fault hr)
    · exact answered_ok _
    · split <;> exact answered_ok _

/-- No fault of a start says that the client is away. -/
theorem run_answered (b : Bridge τ) (s : Session σ τ) (node : NodeId) :
    Answered (s.run b node none).1 := by
  unfold Session.run
  split
  · exact answered_ok _
  · dsimp only
    split
    · exact answered_ok _
    · next body _ =>
      split
      · next hr =>
        have h1 := build_answered b s (s.tree.name node) body
        rw [hr] at h1
        exact answered_error.2 (answered_error.1 h1)
      · exact answered_ok _
      · split <;> exact answered_ok _

/-- A line puts a macro on, or is told why not. -/
theorem runNested_outcome (b : Bridge τ) (s : Session σ τ) (name : Value) :
    (∃ v, s.runNested b name = (.ok (), v) ∧ Starts s true v) ∨
      ∃ e v, s.runNested b name = (.error e, v) ∧ (∀ m, e ≠ .unavailable m) ∧ Remarked s v := by
  have hname : Answered (s.runByName b name none).1 := by
    unfold runByName
    split
    · exact answered_error.2 fun m h => by simp at h
    · exact run_answered b s _
    · exact answered_error.2 fun m h => by simp at h
  have ht := runByName_starts b s name none
  unfold runNested
  split
  · exact .inr ⟨_, s, rfl, fun m h => by simp [Execution.noRunner, Fault.failed] at h, .refl s⟩
  · split
    · next hr =>
      rw [hr] at hname ht
      exact .inr ⟨_, _, rfl, answered_error.1 hname, ht.remarked⟩
    · next hr =>
      rw [hr] at ht
      exact .inl ⟨_, rfl, ht⟩
    · next hr =>
      rw [hr] at ht
      exact .inr ⟨_, _, rfl, fun m h => by simp [Fault.failed] at h, ht.remarked⟩

/-- A line starts a macro that can be started; otherwise it is told that it cannot. -/
theorem runNested_cases (b : Bridge τ) (s : Session σ τ) (name : Value)
    (hl : ∀ n ∈ s.tree.leaves, ∀ body, s.tree.body? n = some body → body.language = .native) :
    (Answered (s.runNested b name).1 ∧ Remarked s (s.runNested b name).2) ∨
      ∃ n is text, s.tree.findLeaves name = [n] ∧ s.built n = some is ∧
        s.stack.length < Limits.maxFrameDepth ∧
        s.runNested b name = (.ok (), s.push n text (.native (.start is))) := by
  by_cases hx : ∃ n is, s.tree.findLeaves name = [n] ∧ s.hasRunner ∧ s.closed = false ∧
      s.built n = some is ∧ s.stack.length < Limits.maxFrameDepth
  · obtain ⟨n, is, hn, hr, hc, hb, hd⟩ := hx
    have hm : n ∈ s.tree.findLeaves name := by simp [hn]
    obtain ⟨text, ht⟩ := runNested_pushes b hr hc hn (hl n (List.mem_filter.1 hm).1) hb hd
    exact .inr ⟨n, is, text, hn, hb, hd, ht⟩
  · refine .inl (runNested_refuses b hl fun n hn hr hc => ?_)
    cases hb : s.built n with
    | none => exact .inl rfl
    | some is => exact .inr (Nat.le_of_not_lt fun hd => hx ⟨n, is, hn, hr, hc, hb, hd⟩)

end Session

end Macros
