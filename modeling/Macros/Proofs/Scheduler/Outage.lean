import Macros.Proofs.Scheduler.AtLoop
import Macros.Proofs.Scheduler.Weather
import Mathlib.Data.List.Induction

/-!
Control during an outage. A call that comes in then works on the state to go back to, so that the same
frames are in progress whether the client is ready again before the calls or after them. One call tells
the two apart: a run that is paused refuses to pause at its next loop line, but in an outage it takes the
request, even if it is to go back to being paused.
-/

namespace Macros

variable {σ τ : Type}

/-- The client is ready again, and nothing comes in while it is asked. -/
def Oracle.Back (o : Oracle σ τ) : Prop := ∀ s, (o .ready s).1 = true ∧ (o .ready s).2.1 = []

theorem Frame.id_of_bare {f g : Frame τ} (h : f.bare = g.bare) : f.id = g.id :=
  show f.bare.id = g.bare.id by rw [h]

theorem Frame.eq_of_bare {f g : Frame τ} (h : f.bare = g.bare) (hp : f.pauseAtLoop = g.pauseAtLoop) :
    f = g := by
  cases f
  cases g
  simp_all [Frame.bare]

namespace Session

variable {o o' : Oracle σ τ} {b : Bridge τ} {s s' t t' : Session σ τ}

/-- The run state, or in an outage the one to go back to. -/
def due (s : Session σ τ) : RunState := if s.state = .notReady then s.prior else s.state

theorem Sound.due_ne (h : s.Sound) : s.due ≠ .notReady := by
  unfold due
  split
  · next hn => rcases h.prior hn with hp | hp <;> simp [hp]
  · next hn => exact hn

theorem Sound.due_idle (h : s.Sound) (he : s.stack = []) : s.due = .idle := by
  simp [due, h.idle_iff.2 he]

/-- The second session is the first one without its outage, apart from marks for a pause and from what was
reported. -/
structure Restored (s t : Session σ τ) : Prop where
  tree : t.tree = s.tree
  settings : t.settings = s.settings
  registry : t.registry = s.registry
  closed : t.closed = s.closed
  freshRun : t.freshRun = s.freshRun
  stopEvent : t.stopEvent = s.stopEvent
  hasRunner : t.hasRunner = s.hasRunner
  nextId : t.nextId = s.nextId
  stack : t.stack.map Frame.bare = s.stack.map Frame.bare
  state : t.state = s.due

/-- The state is to be changed, in an outage the one to go back to. -/
def turn (s : Session σ τ) (x : RunState) : Session σ τ :=
  if s.state = .notReady then { s with prior := x } else s.setState x

namespace Restored

theorem due (h : Restored s t) (hd : s.due ≠ .notReady) : t.due = s.due := by
  rw [Session.due, if_neg (by rw [h.state]; exact hd), h.state]

theorem isEmpty_of_bare {fs gs : List (Frame τ)} (h : gs.map Frame.bare = fs.map Frame.bare) :
    gs.isEmpty = fs.isEmpty := by
  rw [← List.isEmpty_map (f := Frame.bare), h, List.isEmpty_map]

theorem length (h : Restored s t) : t.stack.length = s.stack.length := by
  simpa using congrArg List.length h.stack

theorem top_id (h : Restored s t) : t.top?.map (·.id) = s.top?.map (·.id) := by
  have ht : t.top?.map Frame.bare = s.top?.map Frame.bare := by
    simpa [top?] using congrArg List.getLast? h.stack
  simpa [Function.comp_def, Frame.bare] using congrArg (Option.map Frame.id) ht

theorem remarked (h : Restored s t) (hs : Remarked s s') (ht : Remarked t t') : Restored s' t' := by
  obtain ⟨p, -, rfl⟩ := hs
  obtain ⟨q, -, rfl⟩ := ht
  exact { h with }

theorem record (h : Restored s t) (e e' : Event) : Restored (s.record e) (t.record e') := { h with }

theorem turn (h : Restored s t) (hd : s.due ≠ .notReady) {x : RunState} (hx : x ≠ .notReady) :
    Restored (s.turn x) (t.turn x) := by
  have ht : t.turn x = t.setState x := if_neg (by rw [h.state]; exact hd)
  rw [ht, setState_eq]
  unfold Session.turn
  split
  · next hn => exact { h with state := by simp [Session.due, hn] }
  · rw [setState_eq]
    exact { h with state := by simp [Session.due, hx] }

/-! Marks of the innermost frame. -/

theorem modify_left (h : Restored s t) {m : Frame τ → Frame τ} (hm : ∀ f, (m f).bare = f.bare) (id : Nat) :
    Restored (s.modify id m) t :=
  { h with stack := h.stack.trans (modify_map s id hm).symm }

theorem modify_right (h : Restored s t) {m : Frame τ → Frame τ} (hm : ∀ f, (m f).bare = f.bare)
    (id : Nat) : Restored s (t.modify id m) :=
  { h with stack := (modify_map t id hm).trans h.stack }

theorem modify (h : Restored s t) {m : Frame τ → Frame τ} (hm : ∀ f, (m f).bare = m f.bare) (id : Nat) :
    Restored (s.modify id m) (t.modify id m) := by
  have hb : ∀ u : Session σ τ, (u.modify id m).stack.map Frame.bare =
      (u.stack.map Frame.bare).map fun f => if f.id = id then m f else f := fun u => by
    simp only [Session.modify, List.map_map]
    refine List.map_congr_left fun g _ => ?_
    dsimp only [Function.comp]
    rw [apply_ite Frame.bare, hm]
    rfl
  exact { h with stack := by rw [hb, hb, h.stack] }

theorem markTop_left (h : Restored s t) {m : Frame τ → Frame τ} (hm : ∀ f, (m f).bare = f.bare) :
    Restored (s.markTop m) t := by
  unfold markTop
  split
  · exact h.modify_left hm _
  · exact h

theorem markTop_right (h : Restored s t) {m : Frame τ → Frame τ} (hm : ∀ f, (m f).bare = f.bare) :
    Restored s (t.markTop m) := by
  unfold markTop
  split
  · exact h.modify_right hm _
  · exact h

theorem markTop (h : Restored s t) {m : Frame τ → Frame τ} (hm : ∀ f, (m f).bare = m f.bare) :
    Restored (s.markTop m) (t.markTop m) := by
  have hi := h.top_id
  unfold Session.markTop
  cases hs : s.top? with
  | none =>
    rw [hs, Option.map_none, Option.map_eq_none_iff] at hi
    rw [hi]
    exact h
  | some f =>
    rw [hs, Option.map_some, Option.map_eq_some_iff] at hi
    obtain ⟨g, hg, hgf⟩ := hi
    rw [hg]
    dsimp only
    rw [hgf]
    exact h.modify hm f.id

/-! Frames that go and come. -/

theorem without (h : Restored s t) (id : Nat) :
    (t.without id).map Frame.bare = (s.without id).map Frame.bare := by
  have hb : ∀ fs : List (Frame τ), (fs.filter (·.id != id)).map Frame.bare =
      (fs.map Frame.bare).filter (·.id != id) := fun fs => by
    rw [List.filter_map]
    rfl
  unfold Session.without
  rw [hb, hb, h.stack]

theorem pop (h : Restored s t) {f g : Frame τ} (hf : f.bare = g.bare) (r : FrameResult) :
    Restored (s.pop f r) (t.pop g r) := by
  have hw := h.without f.id
  rw [pop_eq, pop_eq, ← Frame.id_of_bare hf]
  refine { h with stack := hw, state := ?_ }
  simp only [Session.due, isEmpty_of_bare hw, h.state]
  split <;> simp_all

theorem pops (h : Restored s t) {fs gs : List (Frame τ)} (hf : gs.map Frame.bare = fs.map Frame.bare)
    (r : FrameResult) :
    Restored (fs.foldl (fun s f => s.pop f r) s) (gs.foldl (fun s f => s.pop f r) t) := by
  induction fs generalizing s t gs with
  | nil =>
    obtain rfl : gs = [] := by simpa using hf
    exact h
  | cons f fs ih =>
    obtain ⟨g, gs, rfl, hg, hgs⟩ := List.map_eq_cons_iff.1 hf
    exact ih (h.pop hg.symm r) hgs

theorem halt (h : Restored s t) : Restored s.halt t.halt := by
  have h1 : Restored { s with stopEvent := true } { t with stopEvent := true } := { h with stopEvent := rfl }
  refine h1.pops ?_ .stopped
  rw [List.map_reverse, List.map_reverse, h.stack]

theorem push (h : Restored s t) (hd : s.due ≠ .notReady) (node : NodeId) (text : String) (work : Work τ) :
    Restored (s.push node text work) (t.push node text work) := by
  have ht : t.state ≠ .notReady := by rw [h.state]; exact hd
  have hf : (t.newFrame node text work).bare = (s.newFrame node text work).bare := by
    simp only [newFrame, h.nextId]
  rw [push_eq, push_eq, if_neg ht, if_neg ht]
  refine { h with freshRun := ?_, nextId := ?_, stack := ?_, state := ?_ }
  · simp only [isEmpty_of_bare h.stack, h.freshRun]
  · simp only [h.nextId]
  · simp only [List.map_append, h.stack, List.map_cons, List.map_nil, hf]
  · simp only [Session.due]
    split <;> simp_all

/-! The control calls. -/

theorem pauseAtLoop (h : Restored s t) : Restored s.pauseAtLoop t.pauseAtLoop := by
  have hm : ∀ f : Frame τ, Frame.bare { f with pauseAtLoop := true } = f.bare := fun _ => rfl
  have hp : ∀ u : Session σ τ, u.pauseAtLoop = u ∨
      Remarked (u.markTop fun f => { f with pauseAtLoop := true }) u.pauseAtLoop := fun u => by
    unfold Session.pauseAtLoop
    split
    · exact .inl rfl
    · exact .inr (remarked_log _ _ _)
  rcases hp s with hs | hs <;> rcases hp t with ht | ht
  · rw [hs, ht]; exact h
  · rw [hs]; exact (h.markTop_right hm).remarked (.refl _) ht
  · rw [ht]; exact (h.markTop_left hm).remarked hs (.refl _)
  · exact ((h.markTop_left hm).markTop_right hm).remarked hs ht

theorem pauseNow (h : Restored s t) (hd : s.due ≠ .notReady) : Restored s.pauseNow t.pauseNow := by
  have hq : ∀ u : Session σ τ,
      Remarked (if u.due = .running then u.turn .paused else u) u.pauseNow := fun u => by
    unfold Session.pauseNow Session.turn Session.due
    cases hu : u.state <;> cases hv : u.prior <;> simp [Remarked.refl, remarked_log]
  refine Restored.remarked ?_ (hq s) (hq t)
  rw [h.due hd]
  split
  · exact h.turn hd nofun
  · exact h

theorem resume (h : Restored s t) (hd : s.due ≠ .notReady) (hs : s.stack = [] → s.due = .idle) :
    Restored s.resume t.resume := by
  have hq : ∀ u : Session σ τ, (u.stack = [] → u.due = .idle) →
      Remarked (if u.due = .paused then u.turn .running else u) u.resume := fun u hu => by
    unfold Session.resume Session.turn
    unfold Session.due at hu ⊢
    cases hx : u.state <;> cases hy : u.prior <;> cases hz : u.stack <;>
      simp_all [Remarked.refl, remarked_log]
  refine Restored.remarked ?_ (hq s hs) (hq t ?_)
  · rw [h.due hd]
    split
    · exact h.turn hd nofun
    · exact h
  · rw [h.due hd, ← List.isEmpty_iff, isEmpty_of_bare h.stack, List.isEmpty_iff]
    exact hs

theorem stop (h : Restored s t) (atLoop : Bool) : Restored (s.stop atLoop) (t.stop atLoop) := by
  unfold Session.stop
  rw [isEmpty_of_bare h.stack]
  split
  · exact h
  · split
    · have hm : ∀ f : Frame τ, Frame.bare { f with stopAtLoop := true } =
          { f.bare with stopAtLoop := true } := fun _ => rfl
      exact (h.markTop hm).remarked (remarked_log _ _ _) (remarked_log _ _ _)
    · exact h.halt.remarked (remarked_log _ _ _) (remarked_log _ _ _)

theorem run (h : Restored s t) (hd : s.due ≠ .notReady) (node : NodeId) (n : Option Int) :
    Restored (s.run b node n).2 (t.run b node n).2 := by
  unfold Session.run
  rw [h.closed, h.tree]
  split
  · exact h.remarked (remarked_log _ _ _) (remarked_log _ _ _)
  · dsimp only
    cases s.tree.body? node with
    | none => exact h.remarked (remarked_log _ _ _) (remarked_log _ _ _)
    | some body =>
      have h1 := build_result b h.settings h.registry (s.tree.name node) body n
      have h2 := build_remarked b s (s.tree.name node) body n
      have h3 := build_remarked b t (s.tree.name node) body n
      have h4 := h.remarked h2 h3
      revert h1 h2 h4
      dsimp only
      generalize s.build b (s.tree.name node) body n = p
      generalize t.build b (s.tree.name node) body n = q
      obtain ⟨x, u⟩ := p
      obtain ⟨x', v⟩ := q
      rintro rfl h2 h4
      dsimp only at h2 h4 ⊢
      rcases x' with f | _ | ⟨text, work⟩
      · exact h4
      · exact h4
      · dsimp only
        rw [h4.length]
        split
        · exact h4.remarked (remarked_log _ _ _) (remarked_log _ _ _)
        · refine h4.push ?_ node text work
          obtain ⟨es, -, rfl⟩ := h2
          exact hd

theorem runByName (h : Restored s t) (hd : s.due ≠ .notReady) (name : Value) (n : Option Int) :
    Restored (s.runByName b name n).2 (t.runByName b name n).2 := by
  unfold Session.runByName
  rw [h.tree]
  split
  · exact h
  · exact h.run hd _ n
  · exact h

theorem apply (h : Restored s t) (hs : s.Sound) (c : Control) :
    Restored (c.apply b s) (c.apply b t) := by
  have h1 := h.record (.calling c) (.calling c)
  have hd : (s.record (.calling c)).due ≠ .notReady := hs.due_ne
  have h2 : Restored (c.perform b (s.record (.calling c))).2 (c.perform b (t.record (.calling c))).2 := by
    cases c with
    | run node n => exact h1.run hd node n
    | runByName name n => exact h1.runByName hd (.text name) n
    | pause atLoop =>
      cases atLoop with
      | true => exact h1.pauseAtLoop
      | false => exact h1.pauseNow hd
    | resume => exact h1.resume hd fun he => hs.due_idle he
    | stop atLoop => exact h1.stop atLoop
  exact h2.record _ _

/-- The same calls come to the same during an outage and after it. -/
theorem land (h : Restored s t) (hs : s.Sound) (cs : List Control) :
    Restored (s.land b cs) (t.land b cs) := by
  induction cs generalizing s t with
  | nil => exact h
  | cons c cs ih => exact ih (h.apply hs c) ((apply_meanwhile (o := .still) b c hs).changes.sound hs)

end Restored

/-! The end of the outage. -/

theorem recover_ready (h : s.state ≠ .notReady) : s.recover (.ofOracle b o) = s := if_neg h

theorem recover_back (ho : o.Back) (h : s.state = .notReady) :
    s.recover (.ofOracle b o) = { s with client := (o .ready s).2.2 }.leaveNotReady := by
  have hr : o.respond b .ready s = (true, { s with client := (o .ready s).2.2 }) := by
    unfold Oracle.respond
    dsimp only
    rw [(ho s).1, (ho s).2]
    rfl
  unfold recover
  rw [if_pos h, show (Client.ofOracle b o).ready s = _ from hr]
  rfl

theorem recover_restored (ho : o.Back) (h : s.Sound) :
    Restored s (s.recover (.ofOracle b o)) ∧ (s.recover (.ofOracle b o)).stack = s.stack := by
  by_cases hn : s.state = .notReady
  · have he : s.stack ≠ [] := fun he => by simp [h.idle_iff.2 he] at hn
    rw [recover_back ho hn, leaveNotReady, setState_eq]
    refine ⟨?_, rfl⟩
    constructor <;> simp [log, say, record, due, hn, he]
  · rw [recover_ready hn]
    refine ⟨?_, rfl⟩
    constructor <;> simp [due, hn]

/-! The marks for a pause that calls leave. -/

/-- One of the calls asks for a pause at the next loop line, while the frame is the innermost one and the
run is not paused, by what `state` says of it. -/
def Requested (state : Session σ τ → RunState) (b : Bridge τ) (s : Session σ τ) (cs : List Control)
    (id : Nat) : Prop :=
  ∃ xs ys, cs = xs ++ .pause true :: ys ∧ state (s.land b xs) ≠ .paused ∧
    (s.land b xs).top?.map (·.id) = some id

theorem requested_concat {x : Session σ τ → RunState} {cs : List Control} {c : Control} {id : Nat} :
    Requested x b s (cs ++ [c]) id ↔ Requested x b s cs id ∨
      c = .pause true ∧ x (s.land b cs) ≠ .paused ∧ (s.land b cs).top?.map (·.id) = some id := by
  constructor
  · rintro ⟨xs, ys, he, hx⟩
    rcases List.eq_nil_or_concat ys with rfl | ⟨ys, y, rfl⟩
    · obtain ⟨rfl, hc⟩ := List.append_inj' he rfl
      obtain rfl : c = .pause true := by simpa using hc
      exact .inr ⟨rfl, hx⟩
    · rw [List.concat_eq_append, ← List.cons_append, ← List.append_assoc] at he
      exact .inl ⟨xs, ys, (List.append_inj' he rfl).1, hx⟩
  · rintro (⟨xs, ys, rfl, hx⟩ | ⟨rfl, hx⟩)
    · exact ⟨xs, ys ++ [c], by simp, hx⟩
    · exact ⟨cs, [], rfl, hx⟩

theorem marked_of_mem (h : s.Sound) {f : Frame τ} (hf : f ∈ s.stack) {p : Frame τ → Bool} :
    s.Marked p f.id ↔ p f :=
  ⟨fun ⟨_, hg, hi, hp⟩ => eq_of_id h.numbered hg hf hi ▸ hp, fun hp => ⟨f, hf, rfl, hp⟩⟩

theorem Marked.lt (h : s.Sound) {p : Frame τ → Bool} {id : Nat} (hm : s.Marked p id) : id < s.nextId := by
  obtain ⟨f, hf, rfl, -⟩ := hm
  exact h.fresh f hf

theorem marked_of_stack {p : Frame τ → Bool} (h : s'.stack = s.stack) (id : Nat) :
    s'.Marked p id ↔ s.Marked p id := by
  unfold Marked
  rw [h]

theorem pauseAtLoop_marked (s : Session σ τ) (id : Nat) :
    s.pauseAtLoop.Marked (·.pauseAtLoop) id ↔
      s.Marked (·.pauseAtLoop) id ∨ s.state ≠ .paused ∧ s.top?.map (·.id) = some id := by
  unfold pauseAtLoop
  split
  · next h =>
    have hx : ¬(s.state ≠ .paused ∧ s.top?.map (·.id) = some id) := by
      simp only [Bool.or_eq_true, List.isEmpty_iff, decide_eq_true_eq] at h
      rintro ⟨hp, ht⟩
      simp [top?, h.resolve_right hp] at ht
    rw [or_iff_left hx]
  · next h =>
    simp only [Bool.or_eq_true, List.isEmpty_iff, decide_eq_true_eq, not_or] at h
    have hm : (s.markTop fun f => { f with pauseAtLoop := true }).Marked (·.pauseAtLoop) id ↔ _ :=
      marked_markTop (fun _ => rfl) (fun _ => rfl) (List.getLast?_eq_some_getLast h.1)
    refine ((marked_of_stack (by rfl) id).trans hm).trans (or_comm.trans (or_congr_right ?_))
    rw [and_iff_right h.2]

theorem Starts.marked {p : Bool} (h : Starts s p s') (id : Nat) :
    s'.Marked (·.pauseAtLoop) id ↔ s.Marked (·.pauseAtLoop) id := by
  cases h with
  | nothing h => exact marked_of_stack h.stack id
  | @pushed t h node text work _ _ =>
    rw [push_eq]
    simp [Marked, newFrame, h.stack]

@[simp] theorem pauseNow_stack (s : Session σ τ) : s.pauseNow.stack = s.stack := by
  unfold pauseNow
  split
  · rw [setState_eq]
    rfl
  · split <;> rfl

@[simp] theorem resume_stack (s : Session σ τ) : s.resume.stack = s.stack := by
  unfold resume
  split
  · rw [setState_eq]
    rfl
  · split <;> rfl

theorem stopAtLoop_marked (s : Session σ τ) (id : Nat) :
    (s.stop true).Marked (·.pauseAtLoop) id ↔ s.Marked (·.pauseAtLoop) id := by
  unfold stop
  split
  · rfl
  · exact (marked_of_stack rfl id).trans (marked_markTop_other (fun _ => rfl) fun _ => rfl)

/-- A call marks no frame that is there but the innermost one, if it asks for that. -/
theorem apply_marked (h : s.Sound) {c : Control} {id : Nat} (ho : (c.apply b s).owns id) :
    (c.apply b s).Marked (·.pauseAtLoop) id ↔ s.Marked (·.pauseAtLoop) id ∨
      c = .pause true ∧ s.state ≠ .paused ∧ s.top?.map (·.id) = some id := by
  have hr : (s.record (.calling c)).Marked (·.pauseAtLoop) id ↔ s.Marked (·.pauseAtLoop) id :=
    marked_of_stack rfl id
  have hn : ∀ {p q : Prop}, c ≠ .pause true → (p ∨ c = .pause true ∧ q ↔ p) :=
    fun hc => or_iff_left fun hx => hc hx.1
  rw [← hr]
  refine Iff.trans (b := (c.perform b (s.record (.calling c))).2.Marked (·.pauseAtLoop) id)
    (marked_of_stack rfl id) ?_
  cases c with
  | run node n => exact ((run_starts b _ node n).marked id).trans (hn (by simp)).symm
  | runByName name n => exact ((runByName_starts b _ (.text name) n).marked id).trans (hn (by simp)).symm
  | pause atLoop =>
    cases atLoop with
    | true => exact (pauseAtLoop_marked _ id).trans (or_congr_right (by simp [record, top?]))
    | false => exact (marked_of_stack (pauseNow_stack _) id).trans (hn (by simp)).symm
  | resume => exact (marked_of_stack (resume_stack _) id).trans (hn (by simp)).symm
  | stop atLoop =>
    cases atLoop with
    | true => exact (stopAtLoop_marked _ id).trans (hn (by simp)).symm
    | false =>
      obtain ⟨f, hf, -⟩ := (owns_iff _ id).1 ho
      have he := (stop_spec (o := .still) (s := s.record (.calling (.stop false)))
        (h.of_eq rfl rfl rfl rfl)).2.2
      rw [show (Control.apply b (.stop false) s).stack = [] from he] at hf
      simp at hf

theorem land_concat (b : Bridge τ) (cs : List Control) (c : Control) (s : Session σ τ) :
    s.land b (cs ++ [c]) = c.apply b (s.land b cs) := List.foldl_append

theorem land_sound (h : s.Sound) (cs : List Control) : (s.land b cs).Sound :=
  ((meanwhile b .still).land cs h).changes.sound h

theorem land_nextId_le (h : s.Sound) (cs : List Control) : s.nextId ≤ (s.land b cs).nextId :=
  ((meanwhile b .still).land cs h).nextId_le

theorem Requested.lt (h : s.Sound) {x : Session σ τ → RunState} {cs : List Control} {id : Nat}
    (hq : Requested x b s cs id) : id < (s.land b cs).nextId := by
  obtain ⟨xs, ys, rfl, -, ht⟩ := hq
  obtain ⟨f, hf, rfl⟩ := Option.map_eq_some_iff.1 ht
  have hx := land_sound (b := b) h xs
  have he : s.land b (xs ++ .pause true :: ys) = (s.land b xs).land b (.pause true :: ys) :=
    List.foldl_append
  rw [he]
  exact Nat.lt_of_lt_of_le (hx.fresh f (top?_mem hf)) (land_nextId_le hx _)

/-- The frames that calls leave are marked if they were before, or if one of the calls asks for it. -/
theorem land_marked (h : s.Sound) {cs : List Control} {id : Nat} (ho : (s.land b cs).owns id) :
    (s.land b cs).Marked (·.pauseAtLoop) id ↔
      s.Marked (·.pauseAtLoop) id ∨ Requested (·.state) b s cs id := by
  induction cs using List.reverseRecOn with
  | nil =>
    have hx : ¬Requested (·.state) b s [] id := fun ⟨xs, ys, he, _⟩ => by simp at he
    exact (or_iff_left hx).symm
  | append_singleton cs c ih =>
    have hu : (s.land b cs).Sound := land_sound h cs
    rw [land_concat] at ho ⊢
    rw [requested_concat, apply_marked hu ho, ← or_assoc]
    refine or_congr_left ?_
    by_cases hi : (s.land b cs).owns id
    · exact ih hi
    · -- the frame is new, so nothing before can have marked it
      have hn : (s.land b cs).nextId ≤ id := by
        obtain ⟨g, hg, rfl⟩ := (owns_iff _ id).1 ho
        refine Nat.le_of_not_lt fun hlt => hi ((owns_iff _ _).2 ?_)
        obtain ⟨f, hf, hfg, -⟩ := (apply_meanwhile (o := .still) b c hu).work g hg hlt
        exact ⟨f, hf, hfg⟩
      have hs := land_nextId_le (b := b) h cs
      refine iff_of_false (fun hm => ?_) ?_
      · exact absurd (hm.lt hu) (Nat.not_lt_of_le hn)
      · rintro (hm | hq)
        · exact absurd (hm.lt h) (Nat.not_lt_of_le (Nat.le_trans hs hn))
        · exact absurd (hq.lt h) (Nat.not_lt_of_le hn)

theorem Restored.requested (h : Restored s t) (hs : s.Sound) {cs : List Control} {id : Nat} :
    Requested (·.state) b t cs id ↔ Requested (·.due) b s cs id := by
  have hx : ∀ xs : List Control, Restored (s.land b xs) (t.land b xs) := h.land hs
  unfold Requested
  simp only [fun xs => (hx xs).state, fun xs => (hx xs).top_id]

theorem Requested.of_due {cs : List Control} {id : Nat} (h : Requested (·.due) b s cs id) :
    Requested (·.state) b s cs id := by
  obtain ⟨xs, ys, he, hp, ht⟩ := h
  exact ⟨xs, ys, he, fun hx => hp (by simp [due, hx]), ht⟩

theorem eq_of_bare {fs gs : List (Frame τ)} (h : gs.map Frame.bare = fs.map Frame.bare)
    (hp : ∀ f ∈ fs, ∀ g ∈ gs, f.id = g.id → f.pauseAtLoop = g.pauseAtLoop) : fs = gs := by
  induction fs generalizing gs with
  | nil => simpa using h.symm
  | cons f fs ih =>
    obtain ⟨g, gs, rfl, hg, hgs⟩ := List.map_eq_cons_iff.1 h
    have hf : f = g := Frame.eq_of_bare hg.symm
      (hp f List.mem_cons_self g List.mem_cons_self (Frame.id_of_bare hg.symm))
    rw [hf, ih hgs fun f' hf' g' hg' => hp f' (List.mem_cons_of_mem f hf') g' (List.mem_cons_of_mem g hg')]

/-- Control calls during an outage, or after it. The run comes to the same state, with the same frames in
progress. They are the same in their marks for a pause as well if and only if every mark is one that was
there before, or is due to a request that came while the run was not to go back to being paused. -/
theorem outage_transparent_iff (h : s.Reachable (.ofOracle b o) b) (ho : o'.Back) (cs : List Control) :
    ∀ late early, late = (s.land b cs).recover (.ofOracle b o') →
      early = (s.recover (.ofOracle b o')).land b cs →
      late.state = early.state ∧
        late.stack.map Frame.bare = early.stack.map Frame.bare ∧
        (late.stack = early.stack ↔ ∀ f ∈ late.stack, f.pauseAtLoop →
          s.Marked (·.pauseAtLoop) f.id ∨ Requested (·.due) b s cs f.id) := by
  rintro late early rfl rfl
  have hs := h.sound
  obtain ⟨hr, hst⟩ := recover_restored (b := b) ho hs
  have hrs : (s.recover (.ofOracle b o')).Sound := (recover_changes (o := o') (b := b) hs).sound hs
  have hu : (s.land b cs).Sound := land_sound hs cs
  obtain ⟨hl, hlt⟩ := recover_restored (b := b) ho hu
  have he : Restored (s.land b cs) ((s.recover (.ofOracle b o')).land b cs) := hr.land hs cs
  refine ⟨hl.state.trans he.state.symm, hl.stack.trans he.stack.symm, ?_⟩
  rw [hlt]
  have hlate : ∀ f ∈ (s.land b cs).stack, f.pauseAtLoop ↔
      s.Marked (·.pauseAtLoop) f.id ∨ Requested (·.state) b s cs f.id := fun f hf => by
    rw [← land_marked hs ((owns_iff _ _).2 ⟨f, hf, rfl⟩), marked_of_mem hu hf]
  have hearly : ∀ f ∈ ((s.recover (.ofOracle b o')).land b cs).stack, f.pauseAtLoop ↔
      s.Marked (·.pauseAtLoop) f.id ∨ Requested (·.due) b s cs f.id := fun f hf => by
    rw [← hr.requested hs, ← marked_of_stack hst, ← land_marked hrs ((owns_iff _ _).2 ⟨f, hf, rfl⟩),
      marked_of_mem (land_sound hrs cs) hf]
  constructor
  · intro heq f hf
    exact (hearly f (heq ▸ hf)).1
  · intro hm
    refine eq_of_bare he.stack fun f hf g hg hi => Bool.eq_iff_iff.2 ⟨fun hp => ?_, fun hp => ?_⟩
    · exact (hearly g hg).2 (hi ▸ hm f hf hp)
    · exact (hlate f hf).2 (((hearly g hg).1 hp).imp (hi ▸ ·) fun hq => hi ▸ hq.of_due)

/-- A macro that an outage has interrupted. -/
def interrupted : Session (List Bool) Lines :=
  (Session.waiting [.native "A" "/send X\n/loop"] [false]).operate (.ofOracle (.listed []) .patchy)
    (.listed []) [.control (.runByName "A" none), .tick]

theorem interrupted_reachable : interrupted.Reachable (.ofOracle (.listed []) .patchy) (.listed []) :=
  .operate (.idle ..) _

theorem still_back : (Oracle.still (σ := σ) (τ := τ)).Back := fun _ => ⟨rfl, rfl⟩

/-- The macro is stopped, started again, and asked to pause at its loop line and at once. -/
def insistence : List Control := [.stop false, .runByName "A" none, .pause true, .pause false]

theorem insistence_transparent : interrupted.state = .notReady ∧
    ((interrupted.land (.listed []) insistence).recover (.ofOracle (.listed []) .still)).stack =
      ((interrupted.recover (.ofOracle (.listed []) .still)).land (.listed []) insistence).stack := by
  refine ⟨by decide +kernel, (outage_transparent_iff interrupted_reachable still_back insistence
    _ _ rfl rfl).2.2.2 fun f hf _ => .inr ?_⟩
  have hi : ∀ f ∈ ((interrupted.land (.listed []) insistence).recover
      (.ofOracle (.listed []) .still)).stack, f.id = 1 := by decide +kernel
  rw [hi f hf]
  exact ⟨[.stop false, .runByName "A" none], [.pause false], rfl, by decide +kernel, by decide +kernel⟩

/-- A run that is to go back to being paused takes a request to pause at the next loop line, which it
refuses once it has gone back. -/
theorem outage_takes_request :
    interrupted.Reachable (.ofOracle (.listed []) .patchy) (.listed []) ∧ interrupted.state = .notReady ∧
      ((interrupted.land (.listed []) [.pause false, .pause true]).recover
        (.ofOracle (.listed []) .still)).stack.map (·.pauseAtLoop) = [true] ∧
      ((interrupted.recover (.ofOracle (.listed []) .still)).land (.listed [])
        [.pause false, .pause true]).stack.map (·.pauseAtLoop) = [false] :=
  ⟨interrupted_reachable, by decide +kernel, by decide +kernel, by decide +kernel⟩

end Session

end Macros
