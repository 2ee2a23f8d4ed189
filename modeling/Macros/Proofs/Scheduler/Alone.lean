import Macros.Proofs.Scheduler.Toll

/-!
Lines of a run that is left alone: no control call comes in, whatever else the client does. Such a line
leaves the frames as they are or starts one macro, and if it has started one it cannot stop its own.
-/

namespace Macros

open Session Execution Act

variable {σ τ : Type}

namespace Session

variable {o : Oracle σ τ} {b : Bridge τ} {s t u : Session σ τ} {f g : Frame τ} {i : Instruction}
  {base fs : List (Frame τ)} {w v : NativeWork}

/-- The frames and what they depend on are the same. -/
structure Untouched (s t : Session σ τ) : Prop where
  stack : t.stack = s.stack
  state : t.state = s.state
  prior : t.prior = s.prior
  tree : t.tree = s.tree
  settings : t.settings = s.settings
  registry : t.registry = s.registry

theorem Untouched.trans (h : Untouched s t) (h' : Untouched t u) : Untouched s u where
  stack := h'.stack.trans h.stack
  state := h'.state.trans h.state
  prior := h'.prior.trans h.prior
  tree := h'.tree.trans h.tree
  settings := h'.settings.trans h.settings
  registry := h'.registry.trans h.registry

theorem Aside.untouched (h : Aside s t) : Untouched s t := by
  obtain ⟨es, _, _, _, -, rfl⟩ := h
  exact ⟨rfl, rfl, rfl, rfl, rfl, rfl⟩

theorem Remarked.untouched (h : Remarked s t) : Untouched s t := h.aside.untouched

theorem record_untouched (s : Session σ τ) (e : Event) : Untouched s (s.record e) :=
  ⟨rfl, rfl, rfl, rfl, rfl, rfl⟩

theorem begin_untouched (s : Session σ τ) : Untouched s s.begin := by
  unfold Session.begin
  split <;> exact ⟨rfl, rfl, rfl, rfl, rfl, rfl⟩

/-- The same macros, with the same settings and commands. -/
structure SameBook (t u : Session σ τ) : Prop where
  tree : u.tree = t.tree
  settings : u.settings = t.settings
  registry : u.registry = t.registry

theorem SameBook.trans (h : SameBook s t) (h' : SameBook t u) : SameBook s u :=
  ⟨h'.tree.trans h.tree, h'.settings.trans h.settings, h'.registry.trans h.registry⟩

theorem Untouched.sameBook (h : Untouched t u) : SameBook t u := ⟨h.tree, h.settings, h.registry⟩

theorem modifyNative_sameBook (t : Session σ τ) (id : Nat) (m : NativeWork → NativeWork) :
    SameBook t (t.modifyNative id m) := ⟨rfl, rfl, rfl⟩

theorem pop_sameBook (t : Session σ τ) (f : Frame τ) (r : FrameResult) : SameBook t (t.pop f r) := by
  rw [pop_eq]
  exact ⟨rfl, rfl, rfl⟩

theorem push_sameBook (t : Session σ τ) (n : NodeId) (text : String) (work : Work τ) :
    SameBook t (t.push n text work) := by
  rw [push_eq]
  exact ⟨rfl, rfl, rfl⟩

theorem halt_sameBook (t : Session σ τ) : SameBook t t.halt := by
  have h : SameBook { t with stopEvent := true } t.halt :=
    clear_of_pop (R := SameBook) (fun _ => ⟨rfl, rfl, rfl⟩) (fun _ _ _ h h' => h.trans h')
      (fun s f => pop_sameBook s f .stopped) _
  exact ⟨h.tree, h.settings, h.registry⟩

theorem SameBook.built (h : SameBook s t) (n : NodeId) : t.built n = s.built n := by
  unfold Session.built instructions? runText wrappedText
  rw [h.tree, h.settings, h.registry]

/-- A line for a macro has put that macro on. -/
def Opened (s : Session σ τ) (i : Instruction) (t : Session σ τ) : Prop :=
  ∃ n js text u, i.command = "runmacro" ∧ s.tree.findLeaves i.args = [n] ∧ s.built n = some js ∧
    s.stack.length < Limits.maxFrameDepth ∧ Untouched s u ∧
    Untouched (u.push n text (.native (.start js))) t

theorem Opened.sameBook (h : Opened s i t) : SameBook s t := by
  obtain ⟨n, js, text, v, -, -, -, -, hv, ht⟩ := h
  exact hv.sameBook.trans ((push_sameBook v n text _).trans ht.sameBook)

theorem play_startless {α : Type} (ho : o.Silent) {m : Act α} (h : m.run.Startless) (s : Session σ τ) :
    Untouched s (m.play (.ofOracle b o) b s).2 := (run_startless ho h s).untouched

/-- A line for a macro has started that macro, and has done nothing else. -/
def Launched (b : Bridge τ) (s : Session σ τ) (i : Instruction) (t : Session σ τ) : Prop :=
  i.command = "runmacro" ∧
    ∃ u v, Untouched s u ∧ u.runNested b i.args = (.ok (), v) ∧ Untouched v t

theorem Launched.untouched (h : Launched b s i t) (hu : Untouched t u) : Launched b s i u := by
  obtain ⟨hc, v, v', hv, hr, ht⟩ := h
  exact ⟨hc, v, v', hv, hr, ht.trans hu⟩

/-- If only native macros can be started, a macro is built and put on. -/
theorem Launched.opened (hl : AllNative s.tree) (h : Launched b s i t) : Untouched s t ∨ Opened s i t := by
  obtain ⟨hc, u, v, hu, hr, ht⟩ := h
  rcases runNested_cases b u i.args (hu.tree ▸ hl) with ⟨-, hv⟩ | ⟨n, js, text, hf, hb, hd, hx⟩
  · rw [hr] at hv
    exact .inl (hu.trans (hv.untouched.trans ht))
  · obtain rfl := (Prod.mk.inj (hr.symm.trans hx)).2
    exact .inr ⟨n, js, text, u, hc, hu.tree ▸ hf, hu.sameBook.built n ▸ hb, hu.stack ▸ hd, hu, ht⟩

/-- What the command for a macro leaves behind. -/
theorem runMacro_silent (ho : o.Silent) (hc : i.command = "runmacro") (hu : Untouched s t) :
    Untouched s ((guarded (runMacro i) >>= conclude i).play (.ofOracle b o) b t).2 ∨
      Launched b s i ((guarded (runMacro i) >>= conclude i).play (.ofOracle b o) b t).2 ∧
        Underway ((guarded (runMacro i) >>= conclude i).play (.ofOracle b o) b t).1 := by
  obtain ⟨next, hn, hg, ha⟩ := runMacro_goes_on i
  rw [play_launch hn]
  rcases runNested_outcome b t i.args with ⟨v, hr, -⟩ | ⟨e, v, hr, he, hv⟩
  · rw [hr]
    exact .inr ⟨⟨hc, t, v, hu, hr, play_startless ho hg.startless _⟩, hg.result _ _⟩
  · rw [hr]
    exact .inl (hu.trans (hv.untouched.trans
      (play_startless ho (ha _ (answered_error.2 he)).startless _)))

/-- What a line leaves behind, and what it comes to if it has started a macro. -/
theorem lineRun_silent (ho : o.Silent) (f : Frame τ) (i : Instruction) :
    Untouched s (s.lineRun (.ofOracle b o) b f i).2 ∨
      Launched b s i (s.lineRun (.ofOracle b o) b f i).2 ∧
        Underway (s.lineRun (.ofOracle b o) b f i).1 := by
  have h0 := record_untouched s (.handed f.id i)
  show Untouched s ((execute s.settings i).play _ _ _).2 ∨
    Launched b s i ((execute s.settings i).play _ _ _).2 ∧ Underway ((execute s.settings i).play _ _ _).1
  by_cases hc : i.command = "runmacro"
  · rw [execute_runMacro _ hc, play_bind]
    have h1 := h0.trans (play_startless (b := b) ho (determined_conditionMet i).startless _)
    split
    · next met _ =>
      cases met with
      | false => exact .inl (h1.trans (play_startless ho (skip_determined i).startless _))
      | true => exact runMacro_silent ho hc h1
    · exact .inl h1
  · exact .inl (h0.trans (play_startless ho (execute_determined _ hc).startless _))

/-- What a line comes to that has started a macro does not stop its own, if it comes to anything. -/
def Harmless (r : Except Fault LineResult) : Prop :=
  r = .error .endless ∨
    ∃ x, r = .ok (some x) ∧ ∀ settings : Settings, settings.isStopWorthy x = .ok false

/-- What becomes of a line that is handed over: it may have started a macro, and then it does not stop its
own. -/
theorem perform_silent (ho : o.Silent) (f : Frame τ) (i : Instruction) :
    Untouched s (s.perform (.ofOracle b o) b f i).2 ∨
      Launched b s i (s.perform (.ofOracle b o) b f i).2 ∧
        Harmless (s.perform (.ofOracle b o) b f i).1 := by
  have h := lineRun_silent (b := b) (s := s) ho f i
  unfold Session.perform
  dsimp only
  split
  · next x t hr =>
    have hr : s.lineRun (.ofOracle b o) b f i = (.ok x, t) := hr
    rw [hr] at h
    refine h.imp (·.trans (record_untouched t _)) fun h => ?_
    obtain rfl := h.2.2 x rfl
    exact ⟨h.1.untouched (record_untouched t _), .inr ⟨_, rfl, fun _ => rfl⟩⟩
  · next m t hr =>
    have hr : s.lineRun (.ofOracle b o) b f i = (.error (.unavailable m), t) := hr
    rw [hr] at h
    -- a line that has started a macro does not find the client away
    have h := h.resolve_right fun h => h.2.1 m rfl
    exact .inl (h.trans (remarked_log t _ _).untouched)
  · next t hr =>
    have hr : s.lineRun (.ofOracle b o) b f i = (.error .endless, t) := hr
    rw [hr] at h
    exact h.imp_right fun h => ⟨h.1, .inl rfl⟩
  · next e t _ hn hr =>
    have hr : s.lineRun (.ofOracle b o) b f i = (.error e, t) := hr
    rw [hr] at h
    have hu := (remarked_log t .error (place (t.nameOf f) i ++ ": " ++ e.report)).untouched.trans
      (record_untouched _ (.settled f.id i (.failed .unsupported e.report)))
    exact h.imp (·.trans hu) fun h => ⟨h.1.untouched hu, .inr ⟨_, rfl, fun _ => rfl⟩⟩

/-- A line that comes back found the client away, or came to an outcome. -/
theorem perform_result {c : Client σ τ} (f : Frame τ) (i : Instruction) :
    (s.perform c b f i).1 = .error .endless ∨ (s.perform c b f i).1 = .ok none ∨
      ∃ x, (s.perform c b f i).1 = .ok (some x) := by
  unfold Session.perform
  dsimp only
  split
  · exact .inr (.inr ⟨_, rfl⟩)
  · exact .inr (.inl rfl)
  · exact .inl rfl
  · exact .inr (.inr ⟨_, rfl⟩)

/-- Among native macros: a line that comes back has found the client away, or has come to an outcome, and
may have put a macro on. -/
theorem perform_native (ho : o.Silent) (hl : AllNative s.tree) (f : Frame τ) (i : Instruction)
    (he : (s.perform (.ofOracle b o) b f i).1 ≠ .error .endless) :
    ((s.perform (.ofOracle b o) b f i).1 = .ok none ∧
      Untouched s (s.perform (.ofOracle b o) b f i).2) ∨
    ∃ x, (s.perform (.ofOracle b o) b f i).1 = .ok (some x) ∧
      (Untouched s (s.perform (.ofOracle b o) b f i).2 ∨
        Opened s i (s.perform (.ofOracle b o) b f i).2 ∧
          (∀ settings : Settings, settings.isStopWorthy x = .ok false)) := by
  rcases perform_silent (s := s) (b := b) ho f i with hu | ⟨hn, hx⟩
  · rcases (perform_result (s := s) (c := .ofOracle b o) (b := b) f i).resolve_left he with hr | ⟨x, hr⟩
    · exact .inl ⟨hr, hu⟩
    · exact .inr ⟨x, hr, .inl hu⟩
  · obtain ⟨x, hr, hg⟩ := hx.resolve_left he
    exact .inr ⟨x, hr, (hn.opened hl).imp_right fun h => ⟨h, hg⟩⟩

/-! The innermost frame of a run. -/

/-- The run is running, and a native macro is innermost. -/
structure Atop (t : Session σ τ) (base : List (Frame τ)) (f : Frame τ) (w : NativeWork) : Prop where
  stack : t.stack = base ++ [f.doing w]
  below : ∀ g ∈ base, g.id < f.id
  running : t.state = .running

theorem Atop.untouched (h : Atop t base f w) (hu : Untouched t u) : Atop u base f w :=
  ⟨hu.stack.trans h.stack, h.below, hu.state.trans h.running⟩

theorem Atop.top (h : Atop t base f w) : t.top? = some (f.doing w) := by
  unfold top?
  rw [h.stack, List.getLast?_concat]

theorem Atop.frame? (h : Atop t base f w) : t.frame? f.id = some (f.doing w) := by
  unfold Session.frame?
  have hb : base.find? (·.id = f.id) = none :=
    List.find?_eq_none.2 fun g hg => by simpa using Nat.ne_of_lt (h.below g hg)
  rw [h.stack, List.find?_append, hb]
  simp [Frame.doing]

theorem Atop.owns (h : Atop t base f w) : t.owns f.id := by
  unfold Session.owns
  rw [h.stack]
  simp [Frame.doing]

theorem Atop.modify (h : Atop t base f w) (m : Frame τ → Frame τ) :
    (t.modify f.id m).stack = base ++ [m (f.doing w)] := by
  show t.stack.map _ = _
  rw [h.stack, List.map_append]
  congr 1
  · refine (List.map_congr_left fun g hg => ?_).trans (List.map_id _)
    exact if_neg (Nat.ne_of_lt (h.below g hg))
  · simp [Frame.doing]

theorem Atop.modifyNative (h : Atop t base f w) (m : NativeWork → NativeWork) :
    Atop (t.modifyNative f.id m) base f (m w) :=
  ⟨h.modify _, h.below, h.running⟩

theorem Atop.pop (h : Atop t base f w) (r : FrameResult) :
    (t.pop (f.doing w) r).stack = base ∧
      ((t.pop (f.doing w) r).state = .idle ∨ (t.pop (f.doing w) r).state = .running) := by
  have hw : t.without (f.doing w).id = base := without_last h.stack h.below
  rw [pop_eq, hw]
  refine ⟨rfl, ?_⟩
  dsimp only
  split
  · exact .inl rfl
  · exact .inr h.running

/-- The innermost macro has advanced. -/
structure Moved (s : Session σ τ) (base : List (Frame τ)) (f : Frame τ) (w : NativeWork)
    (t u : Session σ τ) : Prop where
  frames : Next s base f w u.stack
  state : u.state = .idle ∨ u.state = .running ∨ u.state = .paused ∧ f.pauseAtLoop
  book : SameBook t u

/-- What is left to do when the innermost macro stands at another place. -/
def Less (s : Session σ τ) (base : List (Frame τ)) (w v : NativeWork) : Prop :=
  v.instructions = w.instructions ∧ s.left (Limits.maxFrameDepth - (base.length + 1)) v <
    s.left (Limits.maxFrameDepth - (base.length + 1)) w

theorem Atop.moved_pop (h : Atop u base f v) (hb : SameBook t u) (r : FrameResult) :
    Moved s base f w t (u.pop (f.doing v) r) := by
  obtain ⟨hs, hx⟩ := h.pop r
  refine ⟨by rw [hs]; exact .ended, ?_, hb.trans (pop_sameBook _ _ _)⟩
  rcases hx with hx | hx
  · exact .inl hx
  · exact .inr (.inl hx)

/-- The macro is taken off if it has no line left; by then its frame may have lost its mark. -/
theorem moved_popIfDone (hs : u.stack = base ++ [g.doing v]) (hbelow : ∀ e ∈ base, e.id < g.id)
    (hp : g.pauseAtLoop → f.pauseAtLoop) (hx : u.state = .running ∨ u.state = .paused ∧ f.pauseAtLoop)
    (hb : SameBook t u) (hl : Less s base w v) : Moved s base f w t (u.popIfDone g.id) := by
  have ht : u.top? = some (g.doing v) := by
    unfold top?
    rw [hs, List.getLast?_concat]
  have hw : u.without g.id = base := without_last (f := g.doing v) hs hbelow
  have he : u.popIfDone g.id =
      if v.instructions.length ≤ v.cursor then u.pop (g.doing v) .completed else u := by
    unfold popIfDone
    rw [ht]
    simp [Frame.doing]
  rw [he]
  split
  · refine ⟨?_, ?_, hb.trans (pop_sameBook _ _ _)⟩
    · rw [pop_eq]
      exact hw ▸ .ended
    · rw [pop_eq]
      dsimp only
      split
      · exact .inl rfl
      · exact .inr hx
  · exact ⟨by rw [hs]; exact .moved g v hp hl.1 hl.2, .inr hx, hb⟩

/-! What follows a line. -/

/-- Passing a loop line comes to looking at the marks; only a mark to stop keeps it from being counted. -/
theorem Atop.loopBoundary (hu : t.settings.Usable) (h : Atop t base f v) (k : Nat) (n : Option Int) :
    (f.stopAtLoop ∧ t.loopBoundary f.id k n = (.ok (), t.loopFlags f.id)) ∨
      f.stopAtLoop = false ∧ ∃ u, Atop u base f (passLoop v k n) ∧ SameBook t u ∧
        t.loopBoundary f.id k n = (.ok (), u.loopFlags f.id) := by
  cases hs : f.stopAtLoop with
  | true =>
    refine .inl ⟨rfl, ?_⟩
    unfold Session.loopBoundary
    rw [h.frame?]
    exact if_pos hs
  | false =>
    obtain ⟨u, hr, he⟩ := loopBoundary_usable (f := f.doing v) hu h.frame? rfl hs k n
    exact .inr ⟨rfl, u, (h.modifyNative fun w => passLoop w k n).untouched hr.untouched,
      (modifyNative_sameBook t f.id fun w => passLoop w k n).trans hr.untouched.sameBook, he⟩

theorem halt_moved (hs : u.Sound) (hb : SameBook t u) : Moved s base f w t u.halt := by
  obtain ⟨hc, -, he⟩ := halt_spec (o := .still) hs
  exact ⟨by rw [he]; exact .cleared, .inl ((hc.sound hs).idle_iff.2 he), hb.trans (halt_sameBook u)⟩

/-- The marks may stop everything, or pause the run; the macro is taken off with its last line. -/
theorem loopFlags_moved (hs : f.stopAtLoop → u.Sound) (h : Atop u base f v) (hb : SameBook t u)
    (hl : Less s base w v) : Moved s base f w t ((u.loopFlags f.id).popIfDone f.id) := by
  unfold loopFlags
  rw [h.frame?]
  dsimp only [Frame.doing]
  split
  · next hm =>
    have hr := remarked_log u .info ((u.nameOf (f.doing v)).plain ++ ": stopped at loop")
    have hu := Changes.sound (hr.changes (o := .still)) (hs hm)
    rw [Frame.doing] at hu hr
    rw [popIfDone_nil (halt_spec (o := .still) hu).2.2]
    exact halt_moved hu (hb.trans hr.untouched.sameBook)
  · split
    · next hp =>
      rw [if_pos (show (u.modify f.id _).state = .running from h.running)]
      -- the frame has lost its mark
      refine moved_popIfDone (g := { f with pauseAtLoop := false }) ?_ h.below (fun _ => hp)
        (.inr ⟨?_, hp⟩) ?_ hl
      · rw [setState_eq]
        exact h.modify _
      · rw [setState_eq]
        rfl
      · rw [setState_eq]
        exact ⟨hb.tree, hb.settings, hb.registry⟩
    · exact moved_popIfDone h.stack h.below id (.inl h.running) hb hl

theorem passLoop_instructions (w : NativeWork) (k : Nat) (n : Option Int) :
    (passLoop w k n).instructions = w.instructions := by
  unfold passLoop
  split <;> rfl

theorem less_next (hi : w.instructions[w.cursor]? = some i) : Less s base w w.next := by
  refine ⟨rfl, ?_⟩
  rw [left_next (List.getElem?_eq_some_iff.1 hi).1]
  exact Nat.lt_add_of_pos_left (toll_pos hi)

/-- A line that has started no macro. -/
theorem afterNative_moved (hu : u.settings.Usable) (hs : u.Sound) (h : Atop u base f w.next)
    (hw : w.Sound) (hc : Counted w.instructions) (hi : w.instructions[w.cursor]? = some i)
    (hb : SameBook t u) (x : Outcome) :
    (u.afterNative f.id w.cursor i (some x)).1 = .ok true ∧
      Moved s base f w t (u.afterNative f.id w.cursor i (some x)).2 := by
  unfold afterNative
  dsimp only
  rcases settle_usable (f := f.doing w.next) hu h.frame? i x with ⟨u', hr, he⟩ | ⟨-, u', hr, he⟩
  · have h1 := h.untouched hr.untouched
    have hb1 := hb.trans hr.untouched.sameBook
    rw [show u.settle f.id i x = _ from he]
    dsimp only
    split
    · next hx =>
      have hl : Less s base w (passLoop w.next w.cursor (loopCount i)) :=
        ⟨passLoop_instructions _ _ _, left_passLoop hw hc hi (completesLoop_command hx)⟩
      rcases h1.loopBoundary (hr.untouched.settings ▸ hu) w.cursor (loopCount i) with
        ⟨-, he'⟩ | ⟨hm, v, h2, hb2, he'⟩
      · rw [he']
        have hs1 := Changes.sound (hr.changes (o := .still)) hs
        exact ⟨rfl, loopFlags_moved (fun _ => hs1) h1 hb1 (less_next hi)⟩
      · rw [he']
        exact ⟨rfl, loopFlags_moved (fun hx => by simp [hm] at hx) h2 (hb1.trans hb2) hl⟩
    · exact ⟨rfl, moved_popIfDone h1.stack h1.below id (.inl h1.running) hb1 (less_next hi)⟩
  · rw [show u.settle f.id i x = _ from he]
    exact ⟨rfl, (h.untouched hr.untouched).moved_pop (hb.trans hr.untouched.sameBook) _⟩

/-- A line that has started a macro. -/
theorem afterNative_opened {u' : Session σ τ} (hu : u'.settings.Usable) (hs : u'.Sound)
    (h : Atop u base f w.next) (hi : w.instructions[w.cursor]? = some i) (hb : SameBook t u)
    (hbs : SameBook s t) (ho : Opened u i u') {x : Outcome}
    (hx : u'.settings.isStopWorthy x = .ok false) :
    (u'.afterNative f.id w.cursor i (some x)).1 = .ok true ∧
      Moved s base f w t (u'.afterNative f.id w.cursor i (some x)).2 := by
  have hb' : SameBook t u' := hb.trans ho.sameBook
  obtain ⟨n, js, text, v, hc, hn, hj, hd, hv, ht⟩ := ho
  have hsu := hbs.trans hb
  have h1 := h.untouched hv
  have hstack : u'.stack = base ++ [f.doing w.next] ++
      [(v.newFrame n text (.native (.start js))).doing (.start js)] := by
    rw [ht.stack, push_eq]
    dsimp only
    rw [h1.stack]
    rfl
  have hstate : u'.state = .running := by
    rw [ht.state, push_eq]
    simp [h1.running]
  have hlt : f.id < ((v.newFrame n text (.native (.start js))).doing (.start js)).id := by
    have hp := hs.numbered
    rw [hstack] at hp
    exact (List.pairwise_append.1 hp).2.2 (f.doing w.next) (by simp) _ (by simp)
  have hfr : u'.frame? f.id = some (f.doing w.next) :=
    frame?_of_mem hs (f := f.doing w.next) (by rw [hstack]; simp)
  unfold afterNative
  dsimp only
  rcases settle_usable (f := f.doing w.next) hu hfr i x with ⟨u₂, hr, he⟩ | ⟨hw, -⟩
  · have hcl : completesLoop i x = false := by simp [completesLoop, hc]
    have hp : u₂.popIfDone f.id = u₂ := by
      unfold popIfDone top?
      rw [hr.stack, hstack, List.getLast?_concat]
      simp [Nat.ne_of_gt hlt]
    rw [show u'.settle f.id i x = _ from he]
    simp only [hcl, Bool.false_eq_true, ↓reduceIte, hp, true_and]
    refine ⟨?_, .inr (.inl (hr.untouched.state.trans hstate)), hb'.trans hr.untouched.sameBook⟩
    rw [hr.stack, hstack]
    refine .opened _ i n js rfl hi hc (hsu.tree ▸ hn) (hsu.built n ▸ hj) ?_
    simpa [h.stack] using hd
  · rw [hw] at hx
    simp at hx

end Session

end Macros
