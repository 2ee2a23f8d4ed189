import Macros.Proofs.Scheduler.Outside
import Macros.Proofs.Scheduler.Talk

/-!
A session that keeps to the exchange with its scripts: every event came when it might, and the work of
every frame stands where the exchange does. Nothing that comes in while the driver waits gets in the
way of that.
-/

namespace Macros

open Session Talk

variable {σ τ : Type}

/-- Scripts as they stand between two advances. -/
inductive Talk.Fits (ρ : Rules τ) : Talk τ → Work τ → Prop
  | native (w : NativeWork) : Fits ρ ended (.native w)
  | due (w : ScriptWork τ) (hp : w.pendingLine = none) (hf : w.run.finished = false)
    (hs : w.run.stepping = false) :
    Fits ρ (due w.run.script w.steps (if w.run.started then w.pendingResult else .null)) (.script w)
  /-- An outage interrupted the line. -/
  | running (w : ScriptWork τ) (line : String) (i : Instruction) (hp : w.pendingLine = some line)
    (hr : Line.read ρ.registry line (w.steps - 1) = .ok (some i)) (hst : w.run.started)
    (hf : w.run.finished = false) (hs : w.run.stepping = false) :
    Fits ρ (running w.run.script w.steps i) (.script w)

/-- How an exchange and the work of a frame belong together, for every frame. -/
abbrev Stand (τ : Type) := Nat → Talk τ → Work τ → Prop

namespace Session

/-- The session keeps to the exchange with its scripts; frames numbered from `n` on are new. -/
structure Keeps (ρ : Rules τ) (A : Stand τ) (n : Nat) (s : Session σ τ) : Prop where
  registry : s.registry = ρ.registry
  settings : s.settings = ρ.settings
  le : n ≤ s.nextId
  followed : ∀ id, Followed ρ id s.journal
  absent : ∀ id, s.nextId ≤ id → read ρ id s.journal = .absent
  isOn : ∀ id, id < s.nextId → (read ρ id s.journal).isOn
  gone : ∀ id, id < s.nextId → s.owns id = false → read ρ id s.journal = .ended
  below : ∀ f ∈ s.stack, f.id < s.nextId
  distinct : (s.stack.map (·.id)).Nodup
  frames : ∀ f ∈ s.stack, A f.id (read ρ f.id s.journal) f.work

variable {ρ : Rules τ} {A A' : Stand τ} {n : Nat} {s s' : Session σ τ} {es : List Event}

theorem Keeps.read_idle (h : s.Keeps ρ A n) (hn : Event.Idle es) (id : Nat) :
    read ρ id (es ++ s.journal) = read ρ id s.journal := by
  by_cases hid : id < s.nextId
  · exact read_aloof hn.aloof (h.isOn id hid)
  · have ha := h.absent id (Nat.le_of_not_lt hid)
    rw [ha, Talk.read_idle hn ha]

/-- Frames keep their numbers, and nothing is reported that moves an exchange. -/
theorem Keeps.idle (h : s.Keeps ρ A n) (hn : Event.Idle es) (hj : s'.journal = es ++ s.journal)
    (hid : s'.nextId = s.nextId) (hr : s'.registry = s.registry) (hs : s'.settings = s.settings)
    (hi : s'.stack.map (·.id) = s.stack.map (·.id))
    (hA : ∀ g ∈ s'.stack, ∃ f ∈ s.stack, f.id = g.id ∧ ∀ t, A f.id t f.work → A' g.id t g.work) :
    s'.Keeps ρ A' n where
  registry := hr.trans h.registry
  settings := hs.trans h.settings
  le := hid ▸ h.le
  followed id := by
    rw [hj]
    exact (h.followed id).aloof hn.aloof
  absent id hle := by
    rw [hj, h.read_idle hn]
    exact h.absent id (hid ▸ hle)
  isOn id hlt := by
    rw [hj, h.read_idle hn]
    exact h.isOn id (hid ▸ hlt)
  gone id hlt ho := by
    rw [hj, h.read_idle hn]
    exact h.gone id (hid ▸ hlt) (by rwa [← owns_of_ids hi])
  below g hg := by
    obtain ⟨f, hf, he, -⟩ := hA g hg
    rw [hid, ← he]
    exact h.below f hf
  distinct := hi ▸ h.distinct
  frames g hg := by
    obtain ⟨f, hf, he, hw⟩ := hA g hg
    rw [hj, h.read_idle hn]
    exact hw _ (he ▸ h.frames f hf)

/-- Frames stay as they are. -/
theorem Keeps.same (h : s.Keeps ρ A n) (hn : Event.Idle es) (hj : s'.journal = es ++ s.journal)
    (hid : s'.nextId = s.nextId) (hr : s'.registry = s.registry) (hs : s'.settings = s.settings)
    (hi : s'.stack = s.stack) : s'.Keeps ρ A n :=
  h.idle hn hj hid hr hs (by rw [hi]) fun g hg => ⟨g, hi ▸ hg, rfl, fun _ => id⟩

/-! What may be reported, and what may happen to the stack. -/

theorem idle_cons {e : Event} (he : e.isAloof) (hl : e.isLoading = false) (hn : ∀ e ∈ es, e.isAloof) :
    Event.Idle (e :: es) :=
  ⟨List.forall_mem_cons.2 ⟨he, hn⟩, by simpa using hl⟩

theorem idle_of_quiet (hn : ∀ e ∈ es, e.isAloof) (hl : ∀ e ∈ es, e.isLoading = false) :
    Event.Idle es := ⟨hn, fun e he => hl e (List.mem_of_mem_head? he)⟩

theorem idle_nil : Event.Idle [] := idle_of_quiet nofun nofun

theorem idle_single {e : Event} (he : e.isAloof) (hl : e.isLoading = false) : Event.Idle [e] :=
  idle_cons he hl nofun

theorem Keeps.record (h : s.Keeps ρ A n) {e : Event} (he : e.isAloof) (hl : e.isLoading = false) :
    (s.record e).Keeps ρ A n := h.same (idle_single he hl) rfl rfl rfl rfl rfl

theorem Keeps.log (h : s.Keeps ρ A n) (l : Level) (m : String) : (s.log l m).Keeps ρ A n :=
  h.record rfl rfl

theorem Keeps.emitStatus (h : s.Keeps ρ A n) : s.emitStatus.Keeps ρ A n := h.record rfl rfl

theorem Keeps.setState (h : s.Keeps ρ A n) (x : RunState) : (s.setState x).Keeps ρ A n := by
  have hidle : Event.Idle (s.stateNews x) := by
    refine idle_of_quiet (fun e he => ?_) fun e he => ?_ <;> rw [stateNews_cases he] <;> rfl
  rw [setState_eq]
  exact h.same hidle rfl rfl rfl rfl rfl

theorem Keeps.modify (h : s.Keeps ρ A n) (id : Nat) {g : Frame τ → Frame τ}
    (hi : ∀ f, (g f).id = f.id) (hA : ∀ f ∈ s.stack, ∀ t, A f.id t f.work →
      A' f.id t (if f.id = id then (g f).work else f.work)) : (s.modify id g).Keeps ρ A' n := by
  refine h.idle idle_nil rfl rfl rfl rfl (modify_map s id hi) fun f' hf' => ?_
  obtain ⟨f, hf, rfl⟩ := List.mem_map.1 hf'
  have hw := hA f hf
  refine ⟨f, hf, ?_, fun t ht => ?_⟩
  · split
    · exact (hi f).symm
    · rfl
  · have ht := hw t ht
    split
    · next hid => rw [if_pos hid] at ht; rw [hi]; exact ht
    · next hid => rw [if_neg hid] at ht; exact ht

/-- A mark of a frame is not its work. -/
theorem Keeps.mark (h : s.Keeps ρ A n) (id : Nat) (pauses stops : Frame τ → Bool) :
    (s.modify id fun f => { f with pauseAtLoop := pauses f, stopAtLoop := stops f }).Keeps ρ A n :=
  h.modify id (fun _ => rfl) fun f _ t ht => by simpa using ht

theorem Keeps.read_forget (h : s.Keeps ρ A n) (id : Nat) :
    (read ρ id s.journal).forget = read ρ id s.journal := by
  by_cases hid : id < s.nextId
  · exact forget_of_isOn (h.isOn id hid)
  · rw [h.absent id (Nat.le_of_not_lt hid)]
    rfl

/-- An event moves the exchange of one frame only. -/
theorem Keeps.read_other (h : s.Keeps ρ A n) {e : Event} {id j : Nat} (he : e.frame? = some j)
    (hj : j ≠ id) : read ρ id (e :: s.journal) = read ρ id s.journal :=
  (next_of_other he hj _).trans (h.read_forget id)

theorem popNews_idle (s : Session σ τ) (f : Frame τ) (r : FrameResult) :
    ∃ es, Event.Idle es ∧ s.popNews f r = es ++ [.popped f.id r] := by
  refine ⟨_, ⟨fun e he => ?_, by simp [Event.isLoading]⟩, rfl⟩
  simp only [List.mem_append, List.mem_cons, List.not_mem_nil, or_false] at he
  rcases he with ((rfl | he) | rfl | rfl) | he
  · rfl
  · split at he <;> simp_all [Event.isAloof]
  · rfl
  · rfl
  · split at he <;> simp_all [Event.isAloof]

theorem Keeps.pop (h : s.Keeps ρ A n) {f : Frame τ} (hf : f ∈ s.stack) (r : FrameResult) :
    (s.pop f r).Keeps ρ A n := by
  have hover : read ρ f.id (.popped f.id r :: s.journal) = ended := if_pos rfl
  have hother : ∀ id, f.id ≠ id → read ρ id (.popped f.id r :: s.journal) = read ρ id s.journal :=
    fun id hid => h.read_other rfl hid
  have h1 : Keeps ρ A n
      { s with stack := s.without f.id, journal := .popped f.id r :: s.journal } := by
    refine ⟨h.registry, h.settings, h.le, fun id => ⟨trivial, h.followed id⟩, fun id hle => ?_,
      fun id hlt => ?_, fun id hlt ho => ?_, fun g hg => ?_,
      h.distinct.sublist (List.filter_sublist.map _), fun g hg => ?_⟩
    · have hne : f.id ≠ id := Nat.ne_of_lt (Nat.lt_of_lt_of_le (h.below f hf) hle)
      exact (hother id hne).trans (h.absent id hle)
    · by_cases hid : f.id = id
      · rw [← hid, hover]
        rfl
      · rw [hother id hid]
        exact h.isOn id hlt
    · by_cases hid : f.id = id
      · rw [← hid, hover]
      · rw [hother id hid]
        refine h.gone id hlt (Bool.eq_false_iff.2 fun hown => ?_)
        obtain ⟨g, hg, rfl⟩ := (owns_iff s id).1 hown
        refine Bool.eq_false_iff.1 ho ((owns_iff _ g.id).2 ⟨g, ?_, rfl⟩)
        exact List.mem_filter.2 ⟨hg, by simpa using Ne.symm hid⟩
    · exact h.below g (List.mem_of_mem_filter hg)
    · obtain ⟨hg, hne⟩ := List.mem_filter.1 hg
      rw [hother g.id fun he => by simp [he] at hne]
      exact h.frames g hg
  obtain ⟨es, hn, he⟩ := popNews_idle s f r
  rw [pop_eq]
  exact h1.same hn (by simp [he]) rfl rfl rfl rfl

theorem pushNews_idle (s : Session σ τ) (f : Frame τ) :
    ∃ es, Event.Idle es ∧ s.pushNews f = es ++ [.pushed f.id] := by
  refine ⟨_, ⟨fun e he => ?_, by simp [Event.isLoading]⟩, rfl⟩
  simp only [List.mem_append, List.mem_cons, List.not_mem_nil, or_false] at he
  rcases he with (rfl | rfl) | he
  · rfl
  · rfl
  · split at he <;> simp_all [Event.isAloof]

/-- A frame is put on, after its macro has been built. -/
theorem Keeps.push (h : s.Keeps ρ A n) (hn : ∀ e ∈ es, e.isAloof) (node : NodeId) (text : String)
    {work : Work τ} (hA : A s.nextId (read ρ s.nextId (es ++ s.journal)).push work) :
    (Session.push { s with journal := es ++ s.journal } node text work).Keeps ρ A n := by
  have hnew : read ρ s.nextId (.pushed s.nextId :: (es ++ s.journal)) =
      (read ρ s.nextId (es ++ s.journal)).push := if_pos rfl
  have hold : ∀ id, id < s.nextId →
      read ρ id (.pushed s.nextId :: (es ++ s.journal)) = read ρ id s.journal := fun id hid => by
    have hon := h.isOn id hid
    have hkept := read_aloof hn hon
    rw [Talk.read, hkept, next_of_other rfl (Nat.ne_of_gt hid), forget_of_isOn hon]
  have h1 : Keeps ρ A n
      { s with
        stack := s.stack ++ [s.newFrame node text work]
        nextId := s.nextId + 1
        journal := .pushed s.nextId :: (es ++ s.journal) } := by
    refine ⟨h.registry, h.settings, Nat.le_succ_of_le h.le, fun id => ⟨trivial, (h.followed id).aloof hn⟩,
      fun id hle => ?_, fun id hlt => ?_, fun id hlt ho => ?_, fun g hg => ?_, ?_, fun g hg => ?_⟩
    · have hoff := read_off hn (h.absent id (Nat.le_of_succ_le hle))
      exact (next_of_other rfl (Nat.ne_of_lt hle) _).trans (forget_of_off hoff)
    · rcases Nat.lt_or_eq_of_le (Nat.le_of_lt_succ hlt) with hid | rfl
      · rw [hold id hid]
        exact h.isOn id hid
      · rw [hnew]
        exact isOn_push _
    · have hno : s.owns id = false ∧ id ≠ s.nextId := by
        simp only [owns, List.any_append, Bool.or_eq_false_iff] at ho
        exact ⟨ho.1, fun he => by simp [newFrame, he] at ho⟩
      have hid := Nat.lt_of_le_of_ne (Nat.le_of_lt_succ hlt) hno.2
      rw [hold id hid]
      exact h.gone id hid hno.1
    · rcases List.mem_append.1 hg with hg | hg
      · exact Nat.lt_succ_of_lt (h.below g hg)
      · rw [List.mem_singleton.1 hg]
        exact Nat.lt_succ_self _
    · rw [List.map_append]
      refine List.nodup_append.2 ⟨h.distinct, List.nodup_singleton _, fun id hid j hj => ?_⟩
      obtain ⟨g, hg, rfl⟩ := List.mem_map.1 hid
      rw [List.mem_singleton.1 hj]
      exact Nat.ne_of_lt (h.below g hg)
    · rcases List.mem_append.1 hg with hg | hg
      · rw [hold g.id (h.below g hg)]
        exact h.frames g hg
      · rw [List.mem_singleton.1 hg]
        exact hnew ▸ hA
  obtain ⟨news, hidle, he⟩ := pushNews_idle { s with journal := es ++ s.journal }
    (s.newFrame node text work)
  rw [push_eq]
  have hj := congrArg (· ++ (es ++ s.journal)) he
  exact h1.same hidle (hj.trans (List.append_assoc _ _ _)) rfl rfl rfl rfl

/-! Starting a macro. -/

/-- What has been reported, the latest first, when a macro has been built. -/
inductive Built (b : Bridge τ) : List Event → Work τ → Prop
  | native (is : List Instruction) : Built b [] (.native (.start is))
  | script (es : List Event) (hn : ∀ e ∈ es, e.isAloof) (r : LoadRequest) (x : τ) (name : String)
    (hl : b.interpreter.load r = .ok x) :
    Built b (.loaded r :: es) (.script (.start (.create name x)))

theorem Built.aloof {b : Bridge τ} {work : Work τ} (h : Built b es work) : ∀ e ∈ es, e.isAloof := by
  cases h with
  | native => exact nofun
  | script es hn => exact List.forall_mem_cons.2 ⟨rfl, hn⟩

/-- What has been built stands at its beginning. -/
theorem Built.fits {b : Bridge τ} {work : Work τ} (h : Built b es work) (hb : b.interpreter = ρ.interpreter)
    {id : Nat} {p : List Event} (hp : read ρ id p = .absent) :
    Fits ρ (read ρ id (es ++ p)).push work := by
  cases h with
  | native is =>
    rw [List.nil_append, hp]
    exact .native _
  | script es hn r x name hl =>
    have hoff := read_off hn hp
    have hload : read ρ id (.loaded r :: (es ++ p)) = .loaded x := by
      rw [Talk.read]
      generalize read ρ id (es ++ p) = t at hoff
      cases t with
      | absent | loaded => simp [Talk.next, load, ← hb, hl]
      | _ => simp [isOn] at hoff
    rw [List.cons_append, hload]
    exact .due (ScriptWork.start (.create name x)) rfl rfl rfl

/-- A macro is built, or only the reason why not is told. -/
theorem build_cases (b : Bridge τ) (s : Session σ τ) (name : Value) (body : Body) (count : Option Int) :
    ∃ es, (s.build b name body count).2 = { s with journal := es ++ s.journal } ∧
      ((∃ text work, (s.build b name body count).1 = .ok (some (text, work)) ∧ Built b es work) ∨
        Event.Idle es ∧ ∀ p, (s.build b name body count).1 ≠ .ok (some p)) := by
  unfold build
  split
  · unfold buildScript
    have hi : ∃ es, (∀ e ∈ es, e.isAloof) ∧
        s.ignoreCount name count = { s with journal := es ++ s.journal } := by
      cases count with
      | none => exact ⟨[], nofun, rfl⟩
      | some n => exact ⟨[_], by simp [Event.isAloof], rfl⟩
    obtain ⟨es, hn, he⟩ := hi
    rw [he]
    dsimp only
    unfold Bridge.start
    split
    · next hl =>
      split at hl
      · contradiction
      · refine ⟨.log .error _ :: .loaded _ :: es, rfl, .inr ⟨idle_cons rfl rfl ?_, by simp⟩⟩
        exact List.forall_mem_cons.2 ⟨rfl, hn⟩
    · next run hl =>
      split at hl
      · next x hx =>
        obtain rfl := Except.ok.inj hl
        exact ⟨.loaded _ :: es, rfl, .inl ⟨_, _, rfl, .script es hn _ x _ hx⟩⟩
      · contradiction
  · unfold buildNative
    split
    · exact ⟨[], rfl, .inr ⟨idle_nil, by simp⟩⟩
    · exact ⟨[_], rfl, .inr ⟨idle_single rfl rfl, by simp⟩⟩
    · split
      · exact ⟨[_], rfl, .inr ⟨idle_single rfl rfl, by simp⟩⟩
      · exact ⟨[], rfl, .inl ⟨_, _, rfl, .native _⟩⟩

/-- New frames stand where the exchange does. -/
def Stand.Opens (ρ : Rules τ) (n : Nat) (A : Stand τ) : Prop :=
  ∀ id t w, n ≤ id → Fits ρ t w → A id t w

section

variable {b : Bridge τ} (hA : Stand.Opens ρ n A) (hb : b.interpreter = ρ.interpreter)
include hA hb

theorem Keeps.run (h : s.Keeps ρ A n) (node : NodeId) (count : Option Int) :
    (s.run b node count).2.Keeps ρ A n := by
  unfold Session.run
  split
  · exact h.log _ _
  · dsimp only
    split
    · exact h.log _ _
    · next body _ =>
      obtain ⟨es, he, hcase⟩ := build_cases b s (s.tree.name node) body count
      rcases hcase with ⟨text, work, hw, hbuilt⟩ | ⟨hn, hnone⟩
      · have hlog : ∀ l m, (Session.log { s with journal := es ++ s.journal } l m).Keeps ρ A n :=
          fun l m =>
            have hidle : Event.Idle (.log l (.text m) :: es) := idle_cons rfl rfl hbuilt.aloof
            h.same hidle rfl rfl rfl rfl rfl
        have hr : s.build b (s.tree.name node) body count =
            (.ok (some (text, work)), { s with journal := es ++ s.journal }) := Prod.ext hw he
        rw [hr]
        dsimp only
        split
        · exact hlog _ _
        · exact h.push hbuilt.aloof node _ (hA _ _ _ h.le (hbuilt.fits hb (h.absent _ (Nat.le_refl _))))
      · have hs : (s.build b (s.tree.name node) body count).2.Keeps ρ A n := by
          rw [he]
          exact h.same hn rfl rfl rfl rfl rfl
        split
        · next hr => rw [hr] at hs; exact hs
        · next hr => rw [hr] at hs; exact hs
        · next hr => rw [hr] at hnone; exact absurd rfl (hnone _)

theorem Keeps.runByName (h : s.Keeps ρ A n) (name : Value) (count : Option Int) :
    (s.runByName b name count).2.Keeps ρ A n := by
  unfold Session.runByName
  split
  · exact h
  · exact h.run hA hb _ count
  · exact h

theorem Keeps.runNested (h : s.Keeps ρ A n) (name : Value) : (s.runNested b name).2.Keeps ρ A n := by
  unfold Session.runNested
  split
  · exact h
  · have h1 := h.runByName hA hb name none
    split <;> next hr => rw [hr] at h1; exact h1

end

/-! Other control calls. -/

theorem Keeps.markTop (h : s.Keeps ρ A n) (pauses stops : Frame τ → Bool) :
    (s.markTop fun f => { f with pauseAtLoop := pauses f, stopAtLoop := stops f }).Keeps ρ A n := by
  unfold Session.markTop
  split
  · exact h.mark _ pauses stops
  · exact h

theorem Keeps.prior (h : s.Keeps ρ A n) (x : RunState) : Keeps ρ A n { s with prior := x } :=
  h.same idle_nil rfl rfl rfl rfl rfl

theorem Keeps.pause (h : s.Keeps ρ A n) (atLoop : Bool) : (s.pause atLoop).Keeps ρ A n := by
  unfold Session.pause
  split
  · unfold pauseAtLoop
    split
    · exact h
    · exact (h.markTop (fun _ => true) (·.stopAtLoop)).log _ _
  · unfold pauseNow
    split
    · exact (h.setState _).log _ _
    · split
      · exact h.prior _
      · exact h

theorem Keeps.resume (h : s.Keeps ρ A n) : s.resume.Keeps ρ A n := by
  unfold Session.resume
  split
  · exact (h.setState _).log _ _
  · split
    · exact h.prior _
    · exact h

/-- All frames are taken off, one after the other. -/
theorem Keeps.popAll {fs : List (Frame τ)} (h : s.Keeps ρ A n) (r : FrameResult)
    (hs : ∀ f ∈ fs, f ∈ s.stack) (hn : fs.Pairwise (·.id ≠ ·.id)) :
    (fs.foldl (fun s f => s.pop f r) s).Keeps ρ A n := by
  induction fs generalizing s with
  | nil => exact h
  | cons f fs ih =>
    obtain ⟨hne, hn⟩ := List.pairwise_cons.1 hn
    refine ih (h.pop (hs f (by simp)) r) (fun g hg => ?_) hn
    show g ∈ (s.pop f r).stack
    rw [pop_eq]
    exact List.mem_filter.2 ⟨hs g (by simp [hg]), by simpa using (hne g hg).symm⟩

theorem Keeps.halt (h : s.Keeps ρ A n) : s.halt.Keeps ρ A n := by
  have h1 : Keeps ρ A n { s with stopEvent := true } := h.same idle_nil rfl rfl rfl rfl rfl
  refine h1.popAll .stopped (fun f hf => List.mem_reverse.1 hf) (List.pairwise_reverse.2 ?_)
  exact (List.pairwise_map.1 h.distinct).imp Ne.symm

theorem Keeps.stop (h : s.Keeps ρ A n) (atLoop : Bool) : (s.stop atLoop).Keeps ρ A n := by
  unfold Session.stop
  split
  · exact h
  · split
    · exact (h.markTop (·.pauseAtLoop) (fun _ => true)).log _ _
    · exact h.halt.log _ _

/-! All that can come in. -/

section

variable {b : Bridge τ} (hA : Stand.Opens ρ n A) (hb : b.interpreter = ρ.interpreter)
include hA hb

theorem Keeps.control (h : s.Keeps ρ A n) (c : Control) : (c.apply b s).Keeps ρ A n := by
  have h1 : (s.record (.calling c)).Keeps ρ A n := h.record rfl rfl
  refine Keeps.record ?_ rfl rfl
  cases c with
  | run node count => exact h1.run hA hb node count
  | runByName name count => exact h1.runByName hA hb _ count
  | pause atLoop => exact h1.pause atLoop
  | resume => exact h1.resume
  | stop atLoop => exact h1.stop atLoop

theorem admits_keeps (o : Oracle σ τ) :
    Admits b o fun s s' : Session σ τ => s.Keeps ρ A n → s'.Keeps ρ A n where
  refl _ h := h
  trans h h' h0 := h' (h h0)
  client _ _ h := h.same idle_nil rfl rfl rfl rfl rfl
  control c _ h := h.control hA hb c
  start name _ _ h := h.runNested hA hb name
  say _ _ _ h := h.record rfl rfl

end

end Session

end Macros
