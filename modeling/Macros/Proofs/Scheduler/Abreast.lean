import Macros.Proofs.Scheduler.Attempts

/-!
Two runs that stand at the same place. One of them is disturbed and may be paused or wait for its client;
the other one never is, and what the driver does to both leaves them at the same place again.
-/

namespace Macros

open Session

variable {σ τ : Type}

/-! What the driver does to the core. -/

namespace Core

def modify (k : Core τ) (id : Nat) (g : Frame τ → Frame τ) : Core τ :=
  { k with frames := k.frames.map fun f => if f.id = id then g f else f }

def pop (k : Core τ) (id : Nat) : Core τ := { k with frames := k.frames.filter (·.id != id) }

def push (k : Core τ) (node : NodeId) (text : String) (work : Work τ) : Core τ :=
  { k with
    frames := k.frames ++ [⟨k.nextId, node, text, false, false, work⟩]
    nextId := k.nextId + 1 }

def settle (k : Core τ) (x : Verdict) : Core τ := { k with past := k.past ++ [x] }

end Core

/-- The change of a frame's work, if it is of the kind that is changed. -/
def Frame.native (g : NativeWork → NativeWork) (f : Frame τ) : Frame τ :=
  match f.work with
  | .native w => { f with work := .native (g w) }
  | .script _ => f

def Frame.script (g : ScriptWork τ → ScriptWork τ) (f : Frame τ) : Frame τ :=
  match f.work with
  | .native _ => f
  | .script w => { f with work := .script (g w) }

theorem Frame.bare_native (g : NativeWork → NativeWork) (f : Frame τ) :
    (f.native g).bare = f.bare.native g := by
  unfold Frame.native Frame.bare
  dsimp only
  split <;> rfl

theorem Frame.bare_script (g : ScriptWork τ → ScriptWork τ) (f : Frame τ) :
    (f.script g).bare = f.bare.script g := by
  unfold Frame.script Frame.bare
  dsimp only
  split <;> rfl

/-- A change of frames that is taken back. -/
theorem Core.modify_undo (k : Core τ) (id : Nat) {g g' : Frame τ → Frame τ} (hi : ∀ f, (g f).id = f.id)
    (hg : ∀ f ∈ k.frames, f.id = id → g' (g f) = f) : (k.modify id g).modify id g' = k := by
  have hf : (k.frames.map fun f => if f.id = id then g f else f).map
      (fun f => if f.id = id then g' f else f) = k.frames := by
    rw [List.map_map]
    refine (List.map_congr_left fun f hf => ?_).trans (List.map_id _)
    by_cases hid : f.id = id
    · simp [hid, hi, hg f hf hid]
    · simp [hid]
  unfold Core.modify
  rw [hf]

theorem Frame.native_id (g : NativeWork → NativeWork) (f : Frame τ) : (f.native g).id = f.id := by
  unfold Frame.native
  split <;> rfl

theorem Frame.script_id (g : ScriptWork τ → ScriptWork τ) (f : Frame τ) : (f.script g).id = f.id := by
  unfold Frame.script
  split <;> rfl

namespace Session

theorem core_modify (s : Session σ τ) (id : Nat) {g : Frame τ → Frame τ}
    (hg : ∀ f, (g f).bare = g f.bare) : (s.modify id g).core = s.core.modify id g := by
  have hf : (s.modify id g).stack.map Frame.bare =
      (s.stack.map Frame.bare).map fun f => if f.id = id then g f else f := by
    simp only [Session.modify, List.map_map]
    refine List.map_congr_left fun f _ => ?_
    dsimp only [Function.comp]
    by_cases hi : f.id = id
    · rw [if_pos hi, hg]
      exact (if_pos hi).symm
    · rw [if_neg hi]
      exact (if_neg hi).symm
  unfold core
  rw [hf]
  rfl

theorem core_modifyNative (s : Session σ τ) (id : Nat) (g : NativeWork → NativeWork) :
    (s.modifyNative id g).core = s.core.modify id (Frame.native g) :=
  core_modify s id (Frame.bare_native g)

theorem core_modifyScript (s : Session σ τ) (id : Nat) (g : ScriptWork τ → ScriptWork τ) :
    (s.modifyScript id g).core = s.core.modify id (Frame.script g) :=
  core_modify s id (Frame.bare_script g)

/-- Observers were told of something that is no line; frames may have come or gone. -/
structure Told (s s' : Session σ τ) : Prop where
  news : ∃ es, (∀ e ∈ es, e.isLine = false) ∧ s'.journal = es ++ s.journal
  client : s'.client = s.client
  stopEvent : s'.stopEvent = s.stopEvent
  freshRun : s.freshRun → s'.freshRun

variable {s s' s'' : Session σ τ}

theorem Told.refl (s : Session σ τ) : Told s s := ⟨⟨[], nofun, rfl⟩, rfl, rfl, id⟩

theorem Told.trans (h : Told s s') (h' : Told s' s'') : Told s s'' := by
  obtain ⟨es, he, hj⟩ := h.news
  obtain ⟨es', he', hj'⟩ := h'.news
  exact ⟨⟨es' ++ es, List.forall_mem_append.2 ⟨he', he⟩, by rw [hj', hj, List.append_assoc]⟩,
    h'.client.trans h.client, h'.stopEvent.trans h.stopEvent, h'.freshRun ∘ h.freshRun⟩

theorem Told.past (h : Told s s') : s'.past = s.past := by
  obtain ⟨es, he, hj⟩ := h.news
  simp [Session.past, hj, filterMap_verdict he]

theorem Told.attempts (h : Told s s') : s'.attempts = s.attempts := by
  obtain ⟨es, he, hj⟩ := h.news
  simp [Session.attempts, hj, filterMap_handed he]

theorem Told.attempt {s s' : Session Diary τ} (h : Told s s') : s'.attempt = s.attempt := by
  rw [Session.attempt, Session.attempt, h.past, h.attempts, asked_eq h.client h.attempts]

theorem told_record (s : Session σ τ) {e : Event} (he : e.isLine = false) : Told s (s.record e) :=
  ⟨⟨[e], List.forall_mem_singleton.2 he, rfl⟩, rfl, rfl, id⟩

theorem told_pop (s : Session σ τ) (f : Frame τ) (r : FrameResult) : Told s (s.pop f r) := by
  rw [pop_eq]
  refine ⟨⟨_, fun e he => ?_, rfl⟩, rfl, rfl, id⟩
  obtain ⟨_, rfl⟩ | rfl | rfl | ⟨_, _, rfl⟩ | rfl | rfl := popNews_cases he <;> rfl

theorem told_push (s : Session σ τ) (node : NodeId) (text : String) (work : Work τ) :
    Told s (s.push node text work) := by
  rw [push_eq]
  refine ⟨⟨_, fun e he => ?_, rfl⟩, rfl, rfl, fun h => ?_⟩
  · obtain ⟨_, rfl⟩ | ⟨_, _, rfl⟩ | rfl | rfl := pushNews_cases he <;> rfl
  · show (s.stack.isEmpty || s.freshRun) = true
    rw [h, Bool.or_true]

theorem core_pop (s : Session σ τ) (f : Frame τ) (r : FrameResult) :
    (s.pop f r).core = s.core.pop f.id := by
  have hp := (told_pop s f r).past
  rw [pop_eq] at hp ⊢
  unfold core
  rw [hp]
  unfold without Core.pop
  simp only [List.filter_map]
  rfl

theorem core_push (s : Session σ τ) (node : NodeId) (text : String) (work : Work τ) :
    (s.push node text work).core = s.core.push node text work := by
  have hp := (told_push s node text work).past
  rw [push_eq] at hp ⊢
  unfold core
  rw [hp]
  simp only [List.map_append]
  rfl

theorem core_settled (s : Session σ τ) (id : Nat) (i : Instruction) (x : Outcome) :
    (s.record (.settled id i x)).core = s.core.settle ⟨id, i, x⟩ := by
  simp [core, Core.settle, past, record, Event.verdict?]

theorem past_settled (s : Session σ τ) (id : Nat) (i : Instruction) (x : Outcome) :
    (s.record (.settled id i x)).past = s.past ++ [⟨id, i, x⟩] := congrArg Core.past (core_settled s id i x)

theorem core_handed (s : Session σ τ) (id : Nat) (i : Instruction) :
    (s.record (.handed id i)).core = s.core := rfl

end Session

/-! Two runs. -/

/-- No mark is set, and no line waits to be repeated. -/
structure Frame.Unmarked (f : Frame τ) : Prop where
  pauseAtLoop : f.pauseAtLoop = false
  stopAtLoop : f.stopAtLoop = false
  line : ∀ w, f.work = .script w → w.pendingLine = none

theorem Frame.Unmarked.bare {f : Frame τ} (h : f.Unmarked) : f.bare = f := by
  unfold Frame.bare
  rw [← h.pauseAtLoop]

theorem Frame.Unmarked.native {f : Frame τ} (h : f.Unmarked) (g : NativeWork → NativeWork) :
    (f.native g).Unmarked := by
  unfold Frame.native
  split
  · exact ⟨h.pauseAtLoop, h.stopAtLoop, nofun⟩
  · exact h

theorem Frame.Unmarked.script {f : Frame τ} (h : f.Unmarked) {g : ScriptWork τ → ScriptWork τ}
    (hg : ∀ w, w.pendingLine = none → (g w).pendingLine = none) : (f.script g).Unmarked := by
  unfold Frame.script
  split
  · exact h
  · next w hw =>
    refine ⟨h.pauseAtLoop, h.stopAtLoop, ?_⟩
    rintro _ ⟨⟩
    exact hg w (h.line w hw)

namespace Session

/-- The run goes on until there is nothing left, and nobody means it to do otherwise. -/
structure Serene (t : Session σ τ) : Prop where
  state : t.state = if t.stack.isEmpty then .idle else .running
  frames : ∀ f ∈ t.stack, f.Unmarked

/-- An earlier stop is or will be forgotten, and the diary is up to date. -/
structure Able (s : Session Diary τ) : Prop where
  heeds : s.freshRun ∨ s.stopEvent = false
  dated : s.Dated

variable {s s' t t' : Session Diary τ}

theorem Lull.able (h : Lull s s') (hs : s.Able) : s'.Able where
  heeds := by rw [h.freshRun, h.stopEvent]; exact hs.heeds
  dated := h.dated hs.dated

theorem Told.able (h : Told s s') (hs : s.Able) : s'.Able where
  heeds := hs.heeds.imp h.freshRun fun hx => h.stopEvent.trans hx
  dated := by
    rw [Dated, h.client, h.attempts]
    exact hs.dated

theorem Able.handed (hs : s.Able) (id : Nat) (i : Instruction) : (s.record (.handed id i)).Able where
  heeds := hs.heeds
  dated := Nat.le_succ_of_le hs.dated

theorem Able.settled (hs : s.Able) (id : Nat) (i : Instruction) (x : Outcome) :
    (s.record (.settled id i x)).Able := ⟨hs.heeds, hs.dated⟩

theorem Able.modify (hs : s.Able) (id : Nat) (g : Frame τ → Frame τ) : (s.modify id g).Able :=
  ⟨hs.heeds, hs.dated⟩

theorem Serene.of_eq (h : t.Serene) (hs : t'.stack = t.stack) (hx : t'.state = t.state) :
    t'.Serene := ⟨by rw [hx, hs]; exact h.state, by rw [hs]; exact h.frames⟩

theorem Serene.bare (h : t.Serene) : t.stack.map Frame.bare = t.stack :=
  (List.map_congr_left fun f hf => (h.frames f hf).bare).trans (List.map_id _)

theorem Serene.aside (h : t.Serene) (ha : Aside t t') : t'.Serene := by
  obtain ⟨es, _, _, _, -, rfl⟩ := ha
  exact h.of_eq rfl rfl

theorem Serene.modify (h : t.Serene) (id : Nat) {g : Frame τ → Frame τ}
    (hg : ∀ f, f.Unmarked → (g f).Unmarked) : (t.modify id g).Serene where
  state := by simpa [Session.modify] using h.state
  frames f hf := by
    obtain ⟨e, he, rfl⟩ := List.mem_map.1 hf
    split
    · exact hg e (h.frames e he)
    · exact h.frames e he

theorem Serene.pop (h : t.Serene) (f : Frame τ) (r : FrameResult) :
    (t.pop f r).Serene := by
  rw [pop_eq]
  refine ⟨?_, fun e he => h.frames e (List.mem_of_mem_filter he)⟩
  dsimp only
  split
  · rfl
  · next hw =>
    rw [h.state, if_neg]
    intro he
    rw [without, List.isEmpty_iff.1 he] at hw
    exact hw rfl

theorem Serene.push (h : t.Serene) (node : NodeId) (text : String) {work : Work τ}
    (hw : work.Fresh) : (t.push node text work).Serene := by
  rw [push_eq]
  refine ⟨?_, List.forall_mem_append.2 ⟨h.frames, List.forall_mem_singleton.2 ⟨rfl, rfl, ?_⟩⟩⟩
  · have hn : t.state ≠ .notReady := by
      rw [h.state]
      split <;> simp
    simp [hn]
  · intro w hx
    cases hw with
    | native is => contradiction
    | script run =>
      obtain rfl := Work.script.inj hx
      rfl

/-- The first run may have been disturbed; the second one has not been, and stands at the same place. -/
structure Abreast (s t : Session Diary τ) : Prop where
  core : s.core = t.core
  left : s.Able
  right : t.Able
  calm : t.Serene

namespace Abreast

theorem stack (h : Abreast s t) : s.stack.map Frame.bare = t.stack :=
  (congrArg Core.frames h.core).trans h.calm.bare

theorem settings (h : Abreast s t) : s.settings = t.settings := congrArg Core.settings h.core

theorem registry (h : Abreast s t) : s.registry = t.registry := congrArg Core.registry h.core

theorem past (h : Abreast s t) : s.past = t.past := congrArg Core.past h.core

theorem name (h : Abreast s t) (n : NodeId) : s.tree.name n = t.tree.name n :=
  congrArg (fun k : Core τ => k.tree.name n) h.core

theorem frame? (h : Abreast s t) (id : Nat) : t.frame? id = (s.frame? id).map Frame.bare := by
  unfold Session.frame?
  rw [← h.stack, List.find?_map]
  rfl

theorem top? (h : Abreast s t) : t.top? = s.top?.map Frame.bare := by
  unfold Session.top?
  rw [← h.stack, List.getLast?_map]

theorem owns (h : Abreast s t) (id : Nat) : t.owns id = s.owns id := by
  unfold Session.owns
  rw [← h.stack, List.any_map]
  rfl

/-- The disturbed run is left at its place. -/
theorem lull (h : Abreast s t) (hs : Lull s s') : Abreast s' t :=
  ⟨hs.core.trans h.core, hs.able h.left, h.right, h.calm⟩

/-- Both are left at their place. -/
theorem both (h : Abreast s t) (hs : Lull s s') (ht : Lull t t') (ha : t'.Serene) : Abreast s' t' :=
  ⟨(hs.core.trans h.core).trans ht.core.symm, hs.able h.left, ht.able h.right, ha⟩

theorem record (h : Abreast s t) {e e' : Event} (he : e.isLine = false) (he' : e'.isLine = false) :
    Abreast (s.record e) (t.record e') :=
  h.both (Hush.record s he).toLull (Hush.record t he').toLull (h.calm.of_eq rfl rfl)

theorem log (h : Abreast s t) (l : Level) (m m' : String) : Abreast (s.log l m) (t.log l m') :=
  h.record rfl rfl

theorem emitStatus (h : Abreast s t) : Abreast s.emitStatus t.emitStatus := h.record rfl rfl

theorem handed (h : Abreast s t) (id id' : Nat) (i i' : Instruction) :
    Abreast (s.record (.handed id i)) (t.record (.handed id' i')) :=
  ⟨(core_handed s id i).trans (h.core.trans (core_handed t id' i').symm), h.left.handed id i,
    h.right.handed id' i', h.calm.of_eq rfl rfl⟩

theorem settled (h : Abreast s t) (id : Nat) (i : Instruction) (x : Outcome) :
    Abreast (s.record (.settled id i x)) (t.record (.settled id i x)) :=
  ⟨by rw [core_settled, core_settled, h.core], h.left.settled id i x, h.right.settled id i x,
    h.calm.of_eq rfl rfl⟩

theorem modifyNative (h : Abreast s t) (id : Nat) (g : NativeWork → NativeWork) :
    Abreast (s.modifyNative id g) (t.modifyNative id g) :=
  ⟨by rw [core_modifyNative, core_modifyNative, h.core], h.left.modify _ _, h.right.modify _ _,
    h.calm.modify id fun _ hf => hf.native g⟩

theorem modifyScript (h : Abreast s t) (id : Nat) {g : ScriptWork τ → ScriptWork τ}
    (hg : ∀ w, w.pendingLine = none → (g w).pendingLine = none) :
    Abreast (s.modifyScript id g) (t.modifyScript id g) :=
  ⟨by rw [core_modifyScript, core_modifyScript, h.core], h.left.modify _ _, h.right.modify _ _,
    h.calm.modify id fun _ hf => hf.script hg⟩

theorem pop (h : Abreast s t) {f g : Frame τ} (hi : f.id = g.id) (r : FrameResult) :
    Abreast (s.pop f r) (t.pop g r) :=
  ⟨by rw [core_pop, core_pop, h.core, hi], (told_pop s f r).able h.left, (told_pop t g r).able h.right,
    h.calm.pop g r⟩

theorem push (h : Abreast s t) (node : NodeId) (text : String) {work : Work τ} (hw : work.Fresh) :
    Abreast (s.push node text work) (t.push node text work) :=
  ⟨by rw [core_push, core_push, h.core], (told_push s node text work).able h.left,
    (told_push t node text work).able h.right, h.calm.push node text hw⟩

end Abreast

end Session

/-! What one looks at in a run. -/

def Work.native? {τ : Type} : Work τ → Option NativeWork
  | native w => some w
  | script _ => none

/-- The frames, with the place and the loop counters of those that are native. -/
def Core.places {τ : Type} (k : Core τ) : List (Nat × Option NativeWork) :=
  k.frames.map fun f => (f.id, f.work.native?)

theorem Core.places_script {τ : Type} (k : Core τ) (id : Nat) (g : ScriptWork τ → ScriptWork τ) :
    (k.modify id (Frame.script g)).places = k.places := by
  unfold Core.places Core.modify
  rw [List.map_map]
  refine List.map_congr_left fun f _ => ?_
  dsimp only [Function.comp]
  split
  · unfold Frame.script
    split
    · rfl
    · next hw => simp [hw, Work.native?]
  · rfl

namespace Session

variable {τ : Type} {s t : Session Diary τ}

def places (s : Session Diary τ) : List (Nat × Option NativeWork) :=
  s.stack.map fun f => (f.id, f.work.native?)

/-- The lines that came to an outcome, and where the native macros stand. -/
def outlook (s : Session Diary τ) : List Verdict × List (Nat × Option NativeWork) := (s.past, s.places)

theorem outlook_eq (s : Session Diary τ) : s.outlook = (s.core.past, s.core.places) := by
  show (s.past, s.places) = (s.past, s.core.places)
  congr 1
  unfold places Core.places core
  rw [List.map_map]
  rfl

theorem outlook_modifyScript (s : Session Diary τ) (id : Nat) (g : ScriptWork τ → ScriptWork τ) :
    (s.modifyScript id g).outlook = s.outlook := by
  rw [outlook_eq, outlook_eq, core_modifyScript, Core.places_script]
  rfl

theorem Lull.outlook (h : Lull s t) : t.outlook = s.outlook := by rw [outlook_eq, outlook_eq, h.core]

theorem past_length_le (h : s.journal <:+ t.journal) : s.past.length ≤ t.past.length := by
  unfold past
  rw [List.length_reverse, List.length_reverse]
  exact (h.filterMap _).length_le

end Session

end Macros
