import Macros.Proofs.Scheduler.Abreast
import Macros.Proofs.Scheduler.Driver

/-!
What the driver does after a line, and the start of a macro, for two runs that stand at the same place: the
result is the same, and they stand at the same place again.
-/

namespace Macros

open Session

namespace Session

variable {τ : Type} {s t : Session Diary τ} {b : Bridge τ}

/-- The results agree, and the runs stand at the same place. -/
structure Alike {α : Type} (x y : Except Fault α × Session Diary τ) : Prop where
  result : x.1 = y.1
  abreast : Abreast x.2 y.2

theorem Alike.cases {α : Type} {x y : Except Fault α × Session Diary τ} (h : Alike x y) :
    (∃ e u v, x = (.error e, u) ∧ y = (.error e, v) ∧ Abreast u v) ∨
      ∃ a u v, x = (.ok a, u) ∧ y = (.ok a, v) ∧ Abreast u v := by
  obtain ⟨r, u⟩ := x
  obtain ⟨r', v⟩ := y
  obtain rfl : r = r' := h.result
  cases r with
  | error e => exact .inl ⟨e, u, v, rfl, rfl, h.abreast⟩
  | ok a => exact .inr ⟨a, u, v, rfl, rfl, h.abreast⟩

/-! After a line. -/

theorem settle_alike (h : Abreast s t) (id : Nat) (i : Instruction) (x : Outcome) :
    Alike (s.settle id i x) (t.settle id i x) := by
  unfold settle
  rw [h.frame? id]
  cases s.frame? id with
  | none => exact ⟨rfl, h⟩
  | some f =>
    dsimp only [Option.map]
    rw [← h.settings]
    split
    · exact ⟨rfl, h⟩
    · split
      · exact ⟨rfl, h⟩
      · exact ⟨rfl, (h.log _ _ _).pop rfl _⟩
      · exact ⟨rfl, h.log _ _ _⟩

theorem loopFlags_unset {f : Frame τ} {id : Nat} (h : t.frame? id = some f) (hf : f.Unmarked) :
    t.loopFlags id = t := by
  unfold loopFlags
  rw [h]
  simp [hf.stopAtLoop, hf.pauseAtLoop]

/-- A mark for a pause is nothing to the course of the run. -/
theorem loopFlags_abreast (h : Abreast s t) (id : Nat) : Abreast (s.loopFlags id) (t.loopFlags id) := by
  have hf := h.frame? id
  cases hs : s.frame? id with
  | none =>
    rw [hs] at hf
    simp only [loopFlags, hs, hf]
    exact h
  | some f =>
    rw [hs] at hf
    have hu : f.bare.Unmarked := h.calm.frames _ (frame?_some hf).1
    rw [loopFlags_unset hf hu]
    have hstop : f.stopAtLoop = false := hu.stopAtLoop
    simp only [loopFlags, hs, hstop]
    split
    · contradiction
    · split
      · have h1 := Hush.mark s id fun _ => false
        refine h.lull (h1.trans (Hush.trans ?_ (.log _ _ _))).toLull
        split
        · exact .setState _ _
        · exact .refl _
      · exact h

theorem reportLoop_alike (h : Abreast s t) (name : Value) (done : Nat) (count : Option Int) :
    Alike (s.reportLoop name done count) (t.reportLoop name done count) := by
  have h1 : Abreast (s.record (.loop name done count)) (t.record (.loop name done count)) :=
    h.record rfl rfl
  have hs : (s.record (.loop name done count)).settings = (t.record (.loop name done count)).settings :=
    h.settings
  unfold reportLoop
  dsimp only
  rw [hs]
  split
  · exact ⟨rfl, h1⟩
  · exact ⟨rfl, h1.emitStatus⟩
  · exact ⟨rfl, (h1.log _ _ _).emitStatus⟩

theorem nameOf_bare (h : Abreast s t) (f : Frame τ) : t.nameOf f.bare = s.nameOf f := (h.name f.node).symm

theorem loopBoundary_alike (h : Abreast s t) (id k : Nat) (count : Option Int) :
    Alike (s.loopBoundary id k count) (t.loopBoundary id k count) := by
  unfold loopBoundary
  rw [h.frame? id]
  cases s.frame? id with
  | none => exact ⟨rfl, h⟩
  | some f =>
    dsimp only [Option.map, Frame.bare]
    split
    · exact ⟨rfl, loopFlags_abreast h id⟩
    · split
      · exact ⟨rfl, loopFlags_abreast h id⟩
      · next w _ =>
        have h1 := h.modifyNative id fun w => passLoop w k count
        split
        · have hname := nameOf_bare h1 f
          have h2 := reportLoop_alike h1
            ((s.modifyNative id fun w => passLoop w k count).nameOf f) (w.loopsDone + 1) count
          unfold Frame.bare at hname
          rw [hname]
          rcases h2.cases with ⟨e, u, v, hu, hv, h3⟩ | ⟨_, u, v, hu, hv, h3⟩ <;> rw [hu, hv]
          · exact ⟨rfl, h3⟩
          · exact ⟨rfl, loopFlags_abreast h3 id⟩
        · exact ⟨rfl, loopFlags_abreast h1 id⟩

theorem popIfDone_abreast (h : Abreast s t) (id : Nat) : Abreast (s.popIfDone id) (t.popIfDone id) := by
  unfold popIfDone
  rw [h.top?]
  cases s.top? with
  | none => exact h
  | some f =>
    dsimp only [Option.map, Frame.bare]
    split
    · exact h
    · split
      · split
        · exact h.pop rfl _
        · exact h
      · exact h

theorem popIfOwned_abreast (h : Abreast s t) (id : Nat) (r : FrameResult) :
    Abreast (s.popIfOwned id r) (t.popIfOwned id r) := by
  unfold popIfOwned
  rw [h.frame? id]
  cases s.frame? id with
  | none => exact h
  | some f => exact h.pop rfl r

theorem afterNative_alike (h : Abreast s t) (id k : Nat) (i : Instruction) (x : Outcome) :
    Alike (s.afterNative id k i (some x)) (t.afterNative id k i (some x)) := by
  unfold afterNative
  rcases (settle_alike h id i x).cases with ⟨e, u, v, hu, hv, h1⟩ | ⟨a, u, v, hu, hv, h1⟩ <;>
    simp only [hu, hv]
  · exact ⟨rfl, h1⟩
  · cases a with
    | false => exact ⟨rfl, h1⟩
    | true =>
      dsimp only
      split
      · rcases (loopBoundary_alike h1 id k (loopCount i)).cases with
          ⟨e, u, v, hu, hv, h2⟩ | ⟨_, u, v, hu, hv, h2⟩ <;> simp only [hu, hv]
        · exact ⟨rfl, h2⟩
        · exact ⟨rfl, popIfDone_abreast h2 id⟩
      · exact ⟨rfl, popIfDone_abreast h1 id⟩

theorem afterScript_alike (h : Abreast s t) (id : Nat) (line : String) (i : Instruction) (x : Outcome) :
    Alike (s.afterScript id line i (some x)) (t.afterScript id line i (some x)) := by
  have h0 := h.modifyScript id (g := fun w => { w with pendingResult := .flag x.ok }) fun _ hw => hw
  unfold afterScript
  dsimp only
  rcases (settle_alike h0 id i x).cases with ⟨e, u, v, hu, hv, h1⟩ | ⟨a, u, v, hu, hv, h1⟩ <;>
    rw [hu, hv]
  · exact ⟨rfl, h1⟩
  · cases a with
    | false => exact ⟨rfl, h1⟩
    | true =>
      refine ⟨rfl, ?_⟩
      dsimp only
      split
      · exact loopFlags_abreast h1 id
      · exact h1

/-! Starting a macro. -/

/-- Building a macro tells something that is no line, and that is all. -/
theorem build_news (b : Bridge τ) (s : Session Diary τ) (name : Value) (body : Body) (count : Option Int) :
    ∃ es, (∀ e ∈ es, e.isLine = false) ∧
      (s.build b name body count).2 = { s with journal := es ++ s.journal } := by
  unfold build
  split
  · have h1 : ∃ es, (∀ e ∈ es, e.isLine = false) ∧
        s.ignoreCount name count = { s with journal := es ++ s.journal } := by
      cases count with
      | none => exact ⟨[], nofun, rfl⟩
      | some n => exact ⟨[_], List.forall_mem_singleton.2 rfl, rfl⟩
    obtain ⟨es, he, h1⟩ := h1
    unfold buildScript
    rw [h1]
    dsimp only
    split
    · exact ⟨_ :: _ :: es, List.forall_mem_cons.2 ⟨rfl, List.forall_mem_cons.2 ⟨rfl, he⟩⟩, rfl⟩
    · exact ⟨_ :: es, List.forall_mem_cons.2 ⟨rfl, he⟩, rfl⟩
  · unfold buildNative
    split
    · exact ⟨[], nofun, rfl⟩
    · exact ⟨[_], List.forall_mem_singleton.2 rfl, rfl⟩
    · split
      · exact ⟨[_], List.forall_mem_singleton.2 rfl, rfl⟩
      · exact ⟨[], nofun, rfl⟩

theorem build_hush (b : Bridge τ) (s : Session Diary τ) (name : Value) (body : Body) (count : Option Int) :
    Hush s (s.build b name body count).2 ∧ Told s (s.build b name body count).2 := by
  obtain ⟨es, he, h⟩ := build_news b s name body count
  rw [h]
  exact ⟨.update s s.state s.prior rfl he, ⟨es, he, rfl⟩, rfl, rfl, id⟩

theorem build_alike (h : Abreast s t) (b : Bridge τ) (name : Value) (body : Body) (count : Option Int) :
    Alike (s.build b name body count) (t.build b name body count) := by
  obtain ⟨es, -, ht⟩ := build_news b t name body count
  refine ⟨build_result b h.settings h.registry name body count, ?_⟩
  refine h.both (build_hush b s name body count).1.toLull (build_hush b t name body count).1.toLull ?_
  rw [ht]
  exact h.calm.of_eq rfl rfl

theorem run_alike (h : Abreast s t) (b : Bridge τ) (node : NodeId) (count : Option Int) :
    Alike (s.run b node count) (t.run b node count) := by
  have hc : s.closed = t.closed := congrArg Core.closed h.core
  have hb : s.tree.body? node = t.tree.body? node := congrArg (fun k : Core τ => k.tree.body? node) h.core
  unfold Session.run
  dsimp only
  rw [hc, hb, h.name node]
  split
  · exact ⟨rfl, h.log _ _ _⟩
  · split
    · exact ⟨rfl, h.log _ _ _⟩
    · next body _ =>
      rcases hx : s.build b (t.tree.name node) body count with ⟨r, u⟩
      rcases hy : t.build b (t.tree.name node) body count with ⟨r', v⟩
      have h1 := build_alike h b (t.tree.name node) body count
      rw [hx, hy] at h1
      obtain rfl : r = r' := h1.result
      have h2 : Abreast u v := h1.abreast
      split
      · next hr => cases hr; exact ⟨rfl, h2⟩
      · next hr => cases hr; exact ⟨rfl, h2⟩
      · next text work w hr =>
        cases hr
        have hl : u.stack.length = v.stack.length := by rw [← h2.stack, List.length_map]
        have hw : work.Fresh := build_fresh (by rw [hx])
        dsimp only
        rw [hl]
        split
        · exact ⟨rfl, h2.log _ _ _⟩
        · exact ⟨rfl, h2.push node text hw⟩

theorem run_told (b : Bridge τ) (s : Session Diary τ) (node : NodeId) (count : Option Int) :
    Told s (s.run b node count).2 := by
  unfold Session.run
  split
  · exact told_record s rfl
  · dsimp only
    split
    · exact told_record s rfl
    · next body _ =>
      have h1 := (build_hush b s (s.tree.name node) body count).2
      split
      · next hr => rw [hr] at h1; exact h1
      · next hr => rw [hr] at h1; exact h1
      · next hr =>
        rw [hr] at h1
        split
        · exact h1.trans (told_record _ rfl)
        · exact h1.trans (told_push _ _ _ _)

theorem runByName_alike (h : Abreast s t) (b : Bridge τ) (name : Value) (count : Option Int) :
    Alike (s.runByName b name count) (t.runByName b name count) := by
  have hn : s.tree.findLeaves name = t.tree.findLeaves name :=
    congrArg (fun k : Core τ => k.tree.findLeaves name) h.core
  unfold Session.runByName
  rw [hn]
  split
  · exact ⟨rfl, h⟩
  · exact run_alike h b _ count
  · exact ⟨rfl, h⟩

theorem runNested_alike (h : Abreast s t) (b : Bridge τ) (name : Value) :
    Alike (s.runNested b name) (t.runNested b name) := by
  have hr : s.hasRunner = t.hasRunner := congrArg Core.hasRunner h.core
  unfold Session.runNested
  rw [hr]
  split
  · exact ⟨rfl, h⟩
  · rcases (runByName_alike h b name none).cases with ⟨e, u, v, hu, hv, h1⟩ | ⟨a, u, v, hu, hv, h1⟩ <;>
      simp only [hu, hv]
    · exact ⟨rfl, h1⟩
    · cases a with
      | true => exact ⟨rfl, h1⟩
      | false => exact ⟨rfl, h1⟩

theorem runNested_told (b : Bridge τ) (s : Session Diary τ) (name : Value) :
    Told s (s.runNested b name).2 := by
  have h1 : Told s (s.runByName b name none).2 := by
    unfold Session.runByName
    split
    · exact .refl s
    · exact run_told b s _ none
    · exact .refl s
  unfold Session.runNested
  split
  · exact .refl s
  · split <;> next hr => rw [hr] at h1; exact h1

theorem runNested_answered (b : Bridge τ) (s : Session Diary τ) (name : Value) :
    Answered (s.runNested b name).1 := by
  have h1 : Answered (s.runByName b name none).1 := by
    unfold Session.runByName
    split
    · exact answered_error.2 fun m h => by simp at h
    · exact run_answered b s _
    · exact answered_error.2 fun m h => by simp at h
  unfold Session.runNested
  split
  · exact answered_error.2 fun m h => by simp [Execution.noRunner, Fault.failed] at h
  · split
    · next hr => rw [hr] at h1; exact answered_error.2 (answered_error.1 h1)
    · exact answered_ok ()
    · exact answered_error.2 fun m h => by simp [Fault.failed] at h

end Session

end Macros
