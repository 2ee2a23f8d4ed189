import Macros.Proofs.Scheduler.Alone
import Macros.Proofs.Scheduler.Contained

/-!
The frames below the innermost one. While no control call comes in the driver works on the innermost frame
only: that moves on, puts another frame on, or is taken off. What lies below stays as it is, and goes on
from where it stood once it is innermost again. Only a loop line whose frame is marked to stop reaches
further down.
-/

namespace Macros

open Relation Session

variable {σ τ : Type}

/-- The operations by which a run advances. -/
inductive Operation.Drives : Operation → Prop
  | tick : Drives .tick
  | step : Drives .step

namespace Session

variable {c : Client σ τ} {o o' : Oracle σ τ} {b : Bridge τ} {s t u : Session σ τ} {f g : Frame τ}
  {base fs : List (Frame τ)} {l : Flight σ τ} {i : Instruction} {P : Prop}

/-- A frame is in its place, above some and below others. It may have worked; its mark to stop is as it
was. -/
structure Placed (s : Session σ τ) (base : List (Frame τ)) (f : Frame τ) (fs : List (Frame τ))
    (t : Session σ τ) : Prop where
  later : s.journal <:+ t.journal
  frame : ∃ g, g.id = f.id ∧ g.stopAtLoop = f.stopAtLoop ∧ t.stack = base ++ g :: fs
  numbered : t.stack.Pairwise (·.id < ·.id)

theorem Placed.same (h : Placed s base f fs t) (hs : u.stack = t.stack)
    (hj : t.journal <:+ u.journal) : Placed s base f fs u where
  later := h.later.trans hj
  frame := hs ▸ h.frame
  numbered := hs ▸ h.numbered

theorem Placed.aside (h : Placed s base f fs t) (ha : Aside t u) : Placed s base f fs u := by
  obtain ⟨es, _, _, _, -, rfl⟩ := ha
  exact h.same rfl (List.suffix_append _ _)

theorem Placed.remarked (h : Placed s base f fs t) (hr : Remarked t u) : Placed s base f fs u :=
  h.aside hr.aside

theorem Placed.frame? (h : Placed s base f fs t) :
    ∃ g, t.frame? f.id = some g ∧ g.id = f.id ∧ g.stopAtLoop = f.stopAtLoop ∧
      t.stack = base ++ g :: fs := by
  obtain ⟨g, hi, hm, hs⟩ := h.frame
  have hn := h.numbered
  rw [hs, List.pairwise_append] at hn
  have hb : base.find? (·.id = f.id) = none :=
    List.find?_eq_none.2 fun e he => by
      simpa [← hi] using Nat.ne_of_lt (hn.2.2 e he g (by simp))
  refine ⟨g, ?_, hi, hm, hs⟩
  unfold Session.frame?
  rw [hs, List.find?_append, hb]
  simp [hi]

theorem Placed.owns (h : Placed s base f fs t) : t.owns f.id := by
  obtain ⟨g, hg, -⟩ := h.frame?
  exact owns_of_frame? hg

/-- The frame works, and no other frame is touched. -/
theorem Placed.modify (h : Placed s base f fs t) {m : Frame τ → Frame τ}
    (hm : ∀ g, (m g).id = g.id ∧ (m g).stopAtLoop = g.stopAtLoop) :
    Placed s base f fs (t.modify f.id m) where
  later := h.later
  frame := by
    obtain ⟨g, -, hi, hg, hs⟩ := h.frame?
    have hn := h.numbered
    rw [hs, List.pairwise_append, List.pairwise_cons] at hn
    refine ⟨m g, (hm g).1.trans hi, (hm g).2.trans hg, ?_⟩
    show t.stack.map _ = _
    rw [hs, List.map_append, List.map_cons, if_pos hi]
    congr 1
    · refine (List.map_congr_left fun e he => if_neg ?_).trans (List.map_id _)
      exact Nat.ne_of_lt (hi ▸ hn.2.2 e he g (by simp))
    · congr 1
      refine (List.map_congr_left fun e he => if_neg ?_).trans (List.map_id _)
      exact Nat.ne_of_gt (hi ▸ hn.2.1.1 e he)
  numbered := by
    have hi := modify_map (p := Frame.id) t f.id fun g => (hm g).1
    have hp := List.pairwise_map.2 h.numbered
    rw [← hi] at hp
    exact List.pairwise_map.1 hp

theorem Placed.modifyNative (h : Placed s base f fs t) (m : NativeWork → NativeWork) :
    Placed s base f fs (t.modifyNative f.id m) :=
  h.modify fun g => by split <;> exact ⟨rfl, rfl⟩

theorem Placed.modifyScript (h : Placed s base f fs t) (m : ScriptWork τ → ScriptWork τ) :
    Placed s base f fs (t.modifyScript f.id m) :=
  h.modify fun g => by split <;> exact ⟨rfl, rfl⟩

/-- What has become of a frame that was innermost; `P` says that a loop line of it has been completed. -/
inductive Fares (P : Prop) (base : List (Frame τ)) (f : Frame τ) (s t : Session σ τ) : Prop
  | stays {fs : List (Frame τ)} (placed : Placed s base f fs t)
  | ends {r : FrameResult} (own : r ≠ .stopped) (stack : t.stack = base) (ended : Ended s t f.id r)
  | stops (passed : P) (marked : f.stopAtLoop) (stack : t.stack = [])

/-- The innermost frame is taken off, and it alone. -/
theorem Placed.pop (h : Placed s base f [] t) (hg : t.frame? f.id = some g) {r : FrameResult}
    (hr : r ≠ .stopped) : Fares P base f s (t.pop g r) := by
  obtain ⟨g', hg', hi, -, hs⟩ := h.frame?
  obtain rfl := Option.some.inj (hg.symm.trans hg')
  have hn := h.numbered
  rw [hs, List.pairwise_append] at hn
  refine .ends hr ?_ (hi ▸ (pop_ended t g r).after h.later)
  rw [pop_eq]
  exact without_last hs fun e he => hn.2.2 e he g (by simp)

theorem Placed.popIfOwned (h : Placed s base f [] t) {r : FrameResult} (hr : r ≠ .stopped) :
    Fares P base f s (t.popIfOwned f.id r) := by
  obtain ⟨g, hg, -⟩ := h.frame?
  unfold Session.popIfOwned
  rw [hg]
  exact h.pop hg hr

/-- A frame with others above it is not taken off as done. -/
theorem Placed.popIfDone (h : Placed s base f fs t) : Fares P base f s (t.popIfDone f.id) := by
  unfold Session.popIfDone
  split
  · exact .stays h
  · next e he =>
    split
    · exact .stays h
    · next hi =>
      have hi : e.id = f.id := by simpa using hi
      obtain ⟨g, hg, hgi, -, hs⟩ := h.frame?
      obtain rfl : e = g := Session.eq_of_id h.numbered (top?_mem he) (frame?_some hg).1
        (hi.trans hgi.symm)
      have hfs : fs = [] := by
        have hn := h.numbered
        rw [hs, List.pairwise_append, List.pairwise_cons] at hn
        rw [Session.top?, hs, List.getLast?_append, List.getLast?_cons] at he
        cases fs using List.reverseRecOn with
        | nil => rfl
        | append_singleton fs a =>
          simp only [List.getLast?_concat, Option.getD_some, Option.some_or, Option.some.injEq] at he
          have hlt := hn.2.1.1 a (by simp)
          rw [he] at hlt
          exact absurd hlt (Nat.lt_irrefl _)
      subst hfs
      split
      · split
        · exact h.pop hg (by simp)
        · exact .stays h
      · exact .stays h

/-! Loop lines. -/

theorem halt_stack (h : t.stack.Pairwise (·.id < ·.id)) : t.halt.stack = [] := by
  unfold halt clear
  exact (popAll (o := .still) (s := { t with stopEvent := true }) .stopped
    (List.reverse_reverse _).symm h).2.2

theorem Placed.loopFlags (h : Placed s base f [] t) :
    (f.stopAtLoop ∧ (t.loopFlags f.id).stack = []) ∨ Placed s base f [] (t.loopFlags f.id) := by
  obtain ⟨g, hg, -, hm, -⟩ := h.frame?
  unfold Session.loopFlags
  rw [hg]
  dsimp only
  split
  · next hs => exact .inl ⟨hm ▸ hs, halt_stack h.numbered⟩
  · split
    · have h1 : Placed s base f [] (t.modify f.id fun f => { f with pauseAtLoop := false }) :=
        h.modify fun g => ⟨rfl, rfl⟩
      refine .inr (Placed.remarked ?_ (remarked_log _ _ _))
      split
      · refine h1.same ?_ (setState_suffix _ _)
        rw [setState_eq]
      · exact h1
    · exact .inr h

theorem Placed.loopBoundary (h : Placed s base f [] t) (k : Nat) (n : Option Int) :
    (f.stopAtLoop ∧ (t.loopBoundary f.id k n).2.stack = []) ∨
      Placed s base f [] (t.loopBoundary f.id k n).2 := by
  rcases loopBoundary_cases t f.id k n with he | he | ⟨v, hv, he | he⟩
  · rw [he]
    exact .inr h
  · rw [he]
    exact h.loopFlags
  · rw [he]
    exact .inr ((h.modifyNative _).remarked hv)
  · rw [he]
    exact ((h.modifyNative _).remarked hv).loopFlags

/-! What follows a line. -/

/-- If frames have come on above, the outcome of the line leaves its frame there. -/
def Spares (fs : List (Frame τ)) (i : Instruction) (x : Outcome) : Prop :=
  fs = [] ∨ i.command ≠ "loop" ∧ ∀ settings : Settings, settings.isStopWorthy x = .ok false

theorem settle_fares (h : Placed s base f fs t) {x : Outcome} (hx : Spares fs i x) :
    ((t.settle f.id i x).1 = .ok false ∧ Fares P base f s (t.settle f.id i x).2) ∨
      Placed s base f fs (t.settle f.id i x).2 := by
  have hs := settles t f.id i x
  generalize t.settle f.id i x = r at hs
  cases hs with
  | gone hown => rw [h.owns] at hown; cases hown
  | fine => exact .inr h
  | unread => exact .inr h
  | goesOn => exact .inr (h.remarked (remarked_log _ _ _))
  | @stops g m hg hw =>
    rcases hx with rfl | ⟨-, hx⟩
    · exact .inl ⟨rfl, (h.remarked (remarked_log t .error m)).pop hg (by simp)⟩
    · rw [hx] at hw
      cases hw

/-- The line has come to an outcome by which a loop is passed. -/
def Looped (i : Instruction) (y : LineResult) : Prop := ∃ x, y = some x ∧ completesLoop i x

theorem Placed.enterNotReady (h : Placed s base f fs t) : Placed s base f fs t.enterNotReady :=
  h.same (enterNotReady_waits t).2 (enterNotReady_waits t).1

theorem afterNative_fares (h : Placed s base f fs t) (k : Nat) {y : LineResult}
    (hy : ∀ x, y = some x → Spares fs i x) :
    Fares (Looped i y) base f s (t.afterNative f.id k i y).2 := by
  unfold afterNative
  cases y with
  | none =>
    dsimp only
    split
    · exact .stays ((h.modifyNative _).enterNotReady.remarked (remarked_emitStatus _))
    · exact .stays h
  | some x =>
    have h1 := settle_fares (P := Looped i (some x)) h (hy x rfl)
    dsimp only
    cases hr : t.settle f.id i x with
    | mk r u =>
      rw [hr] at h1
      obtain ⟨rfl, h1⟩ | h1 := h1
      · exact h1
      · rcases r with e | go
        · exact .stays h1
        · cases go with
          | false => exact .stays h1
          | true =>
            dsimp only
            split
            · next hx =>
              -- nothing has come on above, since the line is a loop line
              obtain rfl := (hy x rfl).resolve_right fun h => h.1 (completesLoop_command hx)
              have h2 := h1.loopBoundary k (loopCount i)
              cases hb : u.loopBoundary f.id k (loopCount i) with
              | mk r v =>
                rw [hb] at h2
                rcases h2 with ⟨hm, hv⟩ | h2
                · refine .stops ⟨x, rfl, hx⟩ hm ?_
                  cases r with
                  | error e => exact hv
                  | ok _ =>
                    dsimp only
                    rw [popIfDone_nil hv]
                    exact hv
                · cases r with
                  | error e => exact .stays h2
                  | ok _ => exact h2.popIfDone
            · exact h1.popIfDone

theorem afterScript_fares (h : Placed s base f fs t) (line : String) {y : LineResult}
    (hy : ∀ x, y = some x → Spares fs i x) :
    Fares (Looped i y) base f s (t.afterScript f.id line i y).2 := by
  unfold afterScript
  cases y with
  | none =>
    dsimp only
    split
    · exact .stays (h.modifyScript _).enterNotReady
    · exact .stays h
  | some x =>
    have h0 := h.modifyScript fun w => { w with pendingResult := .flag x.ok }
    have h1 := settle_fares (P := Looped i (some x)) h0 (hy x rfl)
    dsimp only
    generalize (t.modifyScript f.id fun w => { w with pendingResult := .flag x.ok }).settle f.id i x = r
      at h1
    obtain ⟨r, u⟩ := r
    obtain ⟨rfl, h1⟩ | h1 := h1
    · exact h1
    · rcases r with e | go
      · exact .stays h1
      · cases go with
        | false => exact .stays h1
        | true =>
          dsimp only
          split
          · next hx =>
            obtain rfl := (hy x rfl).resolve_right fun h => h.1 (completesLoop_command hx)
            rcases h1.loopFlags with ⟨hm, hv⟩ | h2
            · exact .stops ⟨x, rfl, hx⟩ hm hv
            · exact .stays h2
          · exact .stays h1

/-! The line itself. -/

theorem Sound.placed (h : t.Sound) (hj : s.journal <:+ t.journal)
    (hf : ∃ g, g.id = f.id ∧ g.stopAtLoop = f.stopAtLoop ∧ t.stack = base ++ g :: fs) :
    Placed s base f fs t := ⟨hj, hf, h.numbered⟩

/-- A macro that has been launched is on top. -/
theorem Launched.stack (h : Launched b s i t) : ∃ g, t.stack = s.stack ++ [g] := by
  obtain ⟨-, u, v, hu, hr, ht⟩ := h
  rcases runNested_outcome b u i.args with ⟨v', hx, hp⟩ | ⟨e, v', hx, -⟩
  · obtain rfl := (Prod.mk.inj (hr.symm.trans hx)).2
    cases hp with
    | @pushed u' hm node text work =>
      refine ⟨u'.newFrame node text work, ht.stack.trans ?_⟩
      rw [push_eq, ← hu.stack, ← hm.stack]
  · rw [hr] at hx
    cases hx

/-- A line that is flown from its place leaves its frame there, with a macro on top if it has launched
one, and what follows spares the frame then. -/
theorem landed_placed (ho : o.Silent) (hs : l.session.Sound) (h : Placed s base l.frame [] l.session) :
    ∃ fs, Placed s base l.frame fs (l.landed (.ofOracle b o) b).2 ∧
      ∀ x, (l.landed (.ofOracle b o) b).1 = .ok (some x) → Spares fs l.line x := by
  have hc := ((meanwhile b o).perform hs l.frame l.line).changes
  have ht : (l.landed (.ofOracle b o) b).2.Sound := hc.sound (hs.of_eq rfl rfl rfl rfl)
  have hj : s.journal <:+ (l.landed (.ofOracle b o) b).2.journal :=
    (h.later.trans (List.suffix_cons _ _)).trans hc.journal_suffix
  obtain ⟨g, hi, hm, hg⟩ := h.frame
  rcases perform_silent (s := l.session) (b := b) ho l.frame l.line with hu | ⟨hn, hx⟩
  · exact ⟨[], ht.placed hj ⟨g, hi, hm, hu.stack.trans hg⟩, fun x _ => .inl rfl⟩
  · obtain ⟨e, he⟩ := hn.stack
    refine ⟨[e], ht.placed hj ⟨g, hi, hm, he.trans (by rw [hg]; simp)⟩, fun x hr => .inr ⟨?_, ?_⟩⟩
    · simp [hn.1]
    · have hr : (l.session.perform (.ofOracle b o) b l.frame l.line).1 = .ok (some x) := hr
      rw [hr] at hx
      rcases hx with hx | ⟨x', hx, hw⟩
      · cases hx
      · cases hx
        exact hw

/-- What follows the line, too, leaves alone what is below. -/
theorem conclude_fares (ho : o.Silent) (hs : l.session.Sound) (h : Placed s base l.frame [] l.session) :
    Fares (∃ y, (l.landed (.ofOracle b o) b).1 = .ok y ∧ Looped l.line y) base l.frame s
      (l.conclude (.ofOracle b o) b).2 := by
  obtain ⟨fs, ht, hx⟩ := landed_placed (b := b) ho hs h
  unfold Flight.conclude
  cases hr : l.landed (.ofOracle b o) b with
  | mk r t =>
    rw [hr] at ht hx
    cases r with
    | error e => exact .stays ht
    | ok y =>
      have hy : ∀ x, y = some x → Spares fs l.line x := fun x he => hx x (by rw [he])
      have hf : Fares (Looped l.line y) base l.frame s (l.follow t y).2 := by
        unfold Flight.follow
        split
        · exact afterNative_fares ht _ hy
        · exact afterScript_fares ht _ hy
      cases hf with
      | stays hp => exact .stays hp
      | ends hr hk he => exact .ends hr hk he
      | stops hl hm hk => exact .stops ⟨y, rfl, hl⟩ hm hk

/-! What leads up to the line. -/

theorem hostCalls_aside (ho : o.Silent) (n : Nat) (s : Session σ τ) :
    Aside s (hostCalls (.ofOracle b o) n s) := by
  induction n generalizing s with
  | zero => exact .refl s
  | succ n ih => exact (respond_aside ho .hostCall s).trans (ih _)

theorem Placed.scriptStep (ho : o.Silent) (h : Placed s base f [] t) (w : ScriptWork τ) :
    Placed s base f [] (t.scriptStep (.ofOracle b o) b f w).2 := by
  unfold Session.scriptStep
  split
  · exact h.modifyScript _
  · exact h.modifyScript _
  · next a _ =>
    have h1 := h.same (u := t.record (.sent f.id (if w.run.started then w.pendingResult else .null)))
      rfl (List.suffix_cons _ _)
    exact ((h1.modifyScript _).aside (hostCalls_aside ho a.hostCalls _)).modifyScript _

theorem lineFlight_placed (h : Placed s base f [] t) {line : String} {k : Int}
    (hl : t.lineFlight? f line k = some l) : Placed s base l.frame [] l.session := by
  unfold lineFlight? at hl
  split at hl
  · obtain rfl := Option.some.inj hl
    exact h.remarked (remarked_emitStatus t)
  · cases hl

theorem scriptLine_placed (h : Placed s base f [] t) {line : String} {k : Int}
    (hl : t.lineFlight? f line k = none) : Placed s base f [] (t.scriptLine c b f line k).2 := by
  have h1 := h.remarked (remarked_emitStatus t)
  unfold lineFlight? at hl
  unfold scriptLine
  dsimp only
  split
  · exact (h1.remarked (remarked_log _ _ _)).modifyScript _
  · exact h1.modifyScript _
  · next hr => simp [show Line.read t.registry line k = _ from hr] at hl

/-- A script that is advanced: its line, if there is one, is handed over from its place. -/
theorem advanceScript_fares (ho : o.Silent) (h : Placed s base f [] t) (w : ScriptWork τ) :
    (∀ l, t.scriptFlight? (.ofOracle b o) b f w = some l → Placed s base l.frame [] l.session) ∧
      (t.scriptFlight? (.ofOracle b o) b f w = none →
        Fares P base f s (t.advanceScript (.ofOracle b o) b f w).2) := by
  unfold scriptFlight? advanceScript
  cases w.pendingLine with
  | some line =>
    have h1 := h.modifyScript fun w => { w with pendingLine := none }
    exact ⟨fun l hl => lineFlight_placed h1 hl, fun hl => .stays (scriptLine_placed h1 hl)⟩
  | none =>
    have h1 := h.scriptStep (b := b) ho w
    dsimp only
    cases hr : t.scriptStep (.ofOracle b o) b f w with
    | mk x u =>
      rw [hr] at h1
      rcases x with m | _ | line
      · exact ⟨by simp, fun _ => (h1.remarked (remarked_log u _ _)).popIfOwned (by simp)⟩
      · exact ⟨by simp, fun _ => h1.popIfOwned (by simp)⟩
      · have h2 := h1.modifyScript fun w => { w with steps := w.steps + 1 }
        exact ⟨fun l hl => lineFlight_placed h2 hl, fun hl => .stays (scriptLine_placed h2 hl)⟩

/-- A loop line of the innermost frame is completed by an advance. -/
def PassesLoop (c : Client σ τ) (b : Bridge τ) (s : Session σ τ) (f : Frame τ) : Prop :=
  ∃ l x, s.flight? c b = some l ∧ l.frame = f ∧ (l.landed c b).1 = .ok (some x) ∧
    completesLoop l.line x

/-- The line of the innermost frame is handed over from its place. -/
theorem flight_placed (ho : o.Silent) (h : Placed s base f [] t.begin) (ht : t.begin.top? = some f)
    (hl : t.flight? (.ofOracle b o) b = some l) : Placed s base l.frame [] l.session := by
  unfold Session.flight? topFlight? at hl
  rw [ht] at hl
  dsimp only at hl
  cases hw : f.work with
  | native w =>
    rw [hw] at hl
    obtain ⟨i, -, rfl⟩ := Option.map_eq_some_iff.1 hl
    exact (h.modifyNative _).remarked (remarked_emitStatus _)
  | script w =>
    rw [hw] at hl
    exact (advanceScript_fares (P := True) ho h w).1 l hl

/-- An advance that hands no line over. -/
theorem grounded_fares (ho : o.Silent) (h : Placed s base f [] t.begin) (ht : t.begin.top? = some f)
    (hl : t.flight? (.ofOracle b o) b = none) :
    Fares P base f s (t.advance (.ofOracle b o) b).2 := by
  unfold Session.flight? topFlight? at hl
  unfold advance advanceTop
  rw [ht] at hl ⊢
  dsimp only at hl ⊢
  cases hw : f.work with
  | native w =>
    rw [hw] at hl
    dsimp only
    unfold advanceNative
    rw [Option.map_eq_none_iff.1 hl]
    obtain ⟨g, hg, hi, -⟩ := h.frame?
    obtain rfl := Session.eq_of_id h.numbered (top?_mem ht) (frame?_some hg).1 hi.symm
    exact h.pop hg (by simp)
  | script w =>
    rw [hw] at hl
    exact (advanceScript_fares ho h w).2 hl

/-- An advance of a run works on the innermost frame, and leaves alone what is below it. -/
theorem advance_fares (ho : o.Silent) (hs : s.Sound) (hf : s.stack = base ++ [f]) :
    Fares (PassesLoop (.ofOracle b o) b s f) base f s (s.advance (.ofOracle b o) b).2 := by
  have hb : s.begin.stack = base ++ [f] := (begin_untouched s).stack.trans hf
  have ht : s.begin.top? = some f := by rw [Session.top?, hb, List.getLast?_concat]
  have h0 : Placed s base f [] s.begin := ((begin_changes (o := o) s).sound hs).placed
    (begin_changes (o := o) s).journal_suffix ⟨f, rfl, rfl, hb⟩
  cases hl : s.flight? (.ofOracle b o) b with
  | none => exact grounded_fares ho h0 ht hl
  | some l =>
    obtain rfl : l.frame = f := Option.some.inj ((flight_readied hl).1.symm.trans ht)
    rw [advance_flight hl]
    cases conclude_fares (b := b) ho (flight_spec hs hl).1 (flight_placed ho h0 ht hl) with
    | stays hp => exact .stays hp
    | ends hr hk he => exact .ends hr hk he
    | stops hx hm hk =>
      obtain ⟨y, hy, x, rfl, hx⟩ := hx
      exact .stops ⟨l, x, hl, rfl, hy, hx⟩ hm hk

/-! Operations. -/

theorem recover_silent_stack (ho : o.Silent) (s : Session σ τ) :
    (s.recover (.ofOracle b o)).stack = s.stack := by
  have h1 := (respond_aside (b := b) ho .ready s).untouched
  unfold recover
  split
  · dsimp only
    split
    · obtain ⟨_, -, -, hs, -⟩ := leaveNotReady_view (o.respond b .ready s).2
      exact hs.trans h1.stack
    · exact h1.stack
  · rfl

/-- A tick or a step leaves the frames as they are, or advances a run with the same frames. -/
theorem drives_cases (ho : o.Silent) (hs : s.Sound) {x : Operation} (hx : x.Drives) :
    (x.apply (.ofOracle b o) b s).stack = s.stack ∨
      ∃ u out, Advances (.ofOracle b o) b s u out ∧ x.apply (.ofOracle b o) b s = out.2 ∧
        s.journal <:+ u.journal ∧ u.Sound := by
  cases hx with
  | tick =>
    have hr := recover_changes (o := o) (b := b) hs
    have hm := tickStart_meanwhile (o := o) (b := b) hs
    have ht := (respond_aside (b := b) ho .ready (s.recover (.ofOracle b o))).untouched
    unfold Operation.apply
    by_cases hrun : (s.recover (.ofOracle b o)).state = .running
    · by_cases hy : ((Client.ofOracle b o).ready (s.recover (.ofOracle b o))).1 = true
      · have hc := hr.trans hm.changes
        exact .inr ⟨_, _, .tick hrun hy rfl, rfl, Changes.journal_suffix hc, Changes.sound hc hs⟩
      · refine .inl ?_
        unfold Session.tick
        simp only [hrun, hy, ne_eq, not_true_eq_false, Bool.false_eq_true, if_false]
        exact ((enterNotReady_waits _).2.trans ht.stack).trans (recover_silent_stack ho s)
    · refine .inl ?_
      unfold Session.tick
      simp only [hrun, ne_eq, not_false_eq_true, if_true]
      exact recover_silent_stack ho s
  | step =>
    have hm := stepStart_meanwhile (o := o) (b := b) hs
    have ht := (respond_aside (b := b) ho .ready s).untouched
    unfold Operation.apply
    by_cases hp : s.state = .paused ∧ ¬ s.stack.isEmpty
    · by_cases hy : ((Client.ofOracle b o).ready s).1 = true
      · exact .inr ⟨_, _, .step hp.1 hp.2 hy rfl, rfl, hm.changes.journal_suffix,
          hm.changes.sound hs⟩
      · refine .inl ?_
        unfold Session.step
        simp only [hp.1, hp.2, hy, ne_eq, not_true_eq_false, decide_false, Bool.or_false,
          Bool.not_false, Bool.false_eq_true, if_false, if_true]
        exact (enterNotReady_waits _).2.trans ht.stack
    · refine .inl ?_
      unfold Session.step
      rw [if_pos (by simpa [Classical.or_iff_not_imp_left] using hp)]

/-- A run that is advanced has the frames that it had before. -/
theorem Advances.stack (ho : o.Silent) {out : Except Fault Bool × Session σ τ}
    (h : Advances (.ofOracle b o) b s u out) : u.stack = s.stack := by
  cases h with
  | tick _ _ hu =>
    rw [hu]
    exact (respond_aside (b := b) ho .ready _).untouched.stack.trans (recover_silent_stack ho s)
  | step _ _ _ hu =>
    rw [hu]
    exact (respond_aside (b := b) ho .ready s).untouched.stack

/-- An advance takes up a frame where it stands. -/
inductive TakesUp (c : Client σ τ) (b : Bridge τ) (s : Session σ τ) (g : Frame τ) : Prop
  | line {w : NativeWork} {i : Instruction} {l : Flight σ τ} (work : g.work = .native w)
    (next : w.instructions[w.cursor]? = some i) (flight : s.flight? c b = some l)
    (own : l.frame = g) (line : l.line = i)
  | ended {w : NativeWork} (work : g.work = .native w) (last : w.instructions[w.cursor]? = none)
    (ends : s.advance c b = (.ok true, s.begin.pop g .completed))
  | script {w : ScriptWork τ} (work : g.work = .script w)
    (resumes : s.advance c b = s.begin.advanceScript c b g w)

theorem takesUp_top (h : s.top? = some g) : TakesUp c b s g := by
  have ht : s.begin.top? = some g := by
    unfold Session.top? at h ⊢
    rw [(begin_untouched s).stack, h]
  cases hw : g.work with
  | native w =>
    cases hi : w.instructions[w.cursor]? with
    | none =>
      refine .ended hw hi ?_
      unfold advance advanceTop
      simp only [ht, hw, advanceNative, hi]
    | some i =>
      refine .line (l := ⟨s.begin.stepOver g.id, g, i, .native w.cursor⟩) hw hi ?_ rfl rfl
      unfold Session.flight? topFlight?
      simp only [ht, hw, nativeFlight?, hi, Option.map_some]
  | script w =>
    refine .script hw ?_
    unfold advance advanceTop
    simp only [ht, hw]

/-- What a tick or a step does to a stack with frames `base` at its bottom and others above them. -/
inductive Spared (c : Client σ τ) (b : Bridge τ) (base : List (Frame τ)) (s t : Session σ τ) : Prop
  /-- There is still a frame above. -/
  | above {fs : List (Frame τ)} (there : fs ≠ []) (stack : t.stack = base ++ fs)
  /-- The only frame above has ended, and the one below is taken up where it stands. -/
  | ended {f : Frame τ} {r : FrameResult} (was : s.stack = base ++ [f]) (own : r ≠ .stopped)
    (ended : Ended s t f.id r) (stack : t.stack = base)
    (onward : ∀ g, base.getLast? = some g → ∀ u out, Advances c b t u out → TakesUp c b u g)
  /-- The innermost frame is marked to stop, and has completed a loop line. -/
  | stopped {f : Frame τ} {u : Session σ τ} {out : Except Fault Bool × Session σ τ}
    (top : s.top? = some f) (advances : Advances c b s u out) (same : t = out.2)
    (passes : PassesLoop c b u f) (marked : f.stopAtLoop) (stack : t.stack = [])

/-- One tick or step. -/
theorem drives_spared (ho : o.Silent) (hs : s.Sound) (hb : s.stack = base ++ fs) (hf : fs ≠ [])
    {x : Operation} (hx : x.Drives) :
    Spared (.ofOracle b o) b base s (x.apply (.ofOracle b o) b s) := by
  rcases drives_cases (b := b) ho hs hx with he | ⟨u, out, ha, he, hj, hu⟩
  · exact .above hf (he.trans hb)
  · obtain ⟨gs, f, rfl⟩ : ∃ gs f, fs = gs ++ [f] :=
      ⟨_, _, (List.dropLast_append_getLast hf).symm⟩
    rw [← List.append_assoc] at hb
    have hfares := advance_fares (b := b) ho hu ((ha.stack ho).trans hb)
    have hstack : out.2.stack = (u.advance (.ofOracle b o) b).2.stack := by
      rcases ha.advance.2 with h | h <;> rw [h]
      rw [setState_eq]
    rw [he]
    cases hfares with
    | @stays hs hp =>
      obtain ⟨g, -, -, hg⟩ := hp.frame
      exact .above (show gs ++ g :: hs ≠ [] by simp) (by rw [hstack, hg, List.append_assoc])
    | @ends r hr hk hend =>
      rw [← hstack] at hk
      have hend : Ended s out.2 f.id r := by
        refine Ended.after (t := u) ?_ hj
        rcases ha.advance.2 with h | h <;> rw [h]
        · exact hend
        · exact hend.before (setState_suffix _ _)
      by_cases hgs : gs = []
      · subst hgs
        rw [List.append_nil] at hb hk
        refine .ended hb hr hend hk fun g hg v out' ha' => takesUp_top ?_
        rw [Session.top?, ha'.stack ho, hk, hg]
      · exact .above hgs hk
    | stops hp hm hk =>
      exact .stopped (by rw [Session.top?, hb, List.getLast?_concat]) ha rfl hp hm (hstack.trans hk)

/-- Nested frames are isolated. While ticks and steps go on above some frames, those stay as they are; and
whichever tick or step comes next, they still are after it, with the frame above them gone or not, unless a
loop line is completed whose frame is marked to stop. -/
theorem nested_isolated (hs : s.Reachable (.ofOracle b o') b) (ho : o.Silent) {base : List (Frame τ)}
    (hb : base <+: s.stack) {xs : List Operation} (hx : ∀ x ∈ xs, x.Drives)
    (hd : ∀ ys, ys <+: xs → base.length < (s.operate (.ofOracle b o) b ys).stack.length) :
    (∃ fs, fs ≠ [] ∧ (s.operate (.ofOracle b o) b xs).stack = base ++ fs) ∧
      ∀ x : Operation, x.Drives → Spared (.ofOracle b o) b base (s.operate (.ofOracle b o) b xs)
        (x.apply (.ofOracle b o) b (s.operate (.ofOracle b o) b xs)) := by
  have hsound : ∀ ys, (s.operate (.ofOracle b o) b ys).Sound := fun ys =>
    (operate_changes (o := o) (b := b) hs.sound ys).sound hs.sound
  have hspared : ∀ ys, (∃ fs, fs ≠ [] ∧ (s.operate (.ofOracle b o) b ys).stack = base ++ fs) →
      ∀ x : Operation, x.Drives → Spared (.ofOracle b o) b base (s.operate (.ofOracle b o) b ys)
        (x.apply (.ofOracle b o) b (s.operate (.ofOracle b o) b ys)) := by
    rintro ys ⟨fs, hf, he⟩ x hxd
    exact drives_spared ho (hsound ys) he hf hxd
  suffices h : ∃ fs, fs ≠ [] ∧ (s.operate (.ofOracle b o) b xs).stack = base ++ fs from
    ⟨h, hspared xs h⟩
  induction xs using List.reverseRecOn with
  | nil =>
    obtain ⟨fs, he⟩ := hb
    refine ⟨fs, fun hf => ?_, he.symm⟩
    have hl := hd [] (List.prefix_refl _)
    rw [show s.operate (.ofOracle b o) b [] = s from rfl, ← he, hf, List.append_nil] at hl
    exact Nat.lt_irrefl _ hl
  | append_singleton xs x ih =>
    have h := ih (fun y hy => hx y (by simp [hy])) fun ys hy => hd ys (hy.trans (List.prefix_append _ _))
    have hl := hd (xs ++ [x]) (List.prefix_refl _)
    have he : s.operate (.ofOracle b o) b (xs ++ [x]) =
        x.apply (.ofOracle b o) b (s.operate (.ofOracle b o) b xs) := by
      simp [Session.operate]
    rw [he] at hl ⊢
    -- the depth rules out that the frames above have gone
    cases hspared xs h x (hx x (by simp)) with
    | above hf hk => exact ⟨_, hf, hk⟩
    | ended _ _ _ hk _ => rw [hk] at hl; exact absurd hl (Nat.lt_irrefl _)
    | stopped _ _ _ _ _ hk => rw [hk] at hl; exact absurd hl (Nat.not_lt_zero _)

theorem fruitless_silent : (Oracle.fruitless : Oracle σ τ).Silent := by
  intro k s
  cases k <;> rfl

/-- A macro has started a script, and that a macro which loops once and then asks for a target. -/
def thrice : Session Unit Lines :=
  (Session.waiting [.native "A" "/runmacro S\n/send X", .script "S", .native "B" "/loop 1\n/target Z"]
    ()).operate (.ofOracle (.listed [(0, "/runmacro B")]) .fruitless) (.listed [(0, "/runmacro B")])
    [.control (.runByName "A" none), .tick, .tick]

/-- The inner macro passes its loop twice; then the client refuses the target, and the macro fails. -/
theorem thrice_isolated :
    let b := Bridge.listed [(0, "/runmacro B")]
    let c := Client.ofOracle b Oracle.fruitless
    (∃ fs, fs ≠ [] ∧ (thrice.operate c b [.tick, .tick]).stack = thrice.stack.take 2 ++ fs) ∧
      Spared c b (thrice.stack.take 2) (thrice.operate c b [.tick, .tick])
        (thrice.operate c b [.tick, .tick, .tick]) ∧
      (thrice.operate c b [.tick, .tick, .tick]).stack.map (fun f => (f.id, f.position)) =
        [(0, 1), (1, 1)] := by
  have hd : ∀ ys ∈ [Operation.tick, .tick].inits, 2 < (thrice.operate
      (.ofOracle (.listed [(0, "/runmacro B")]) .fruitless) (.listed [(0, "/runmacro B")])
      ys).stack.length := by
    decide +kernel
  have hx : ∀ x ∈ [Operation.tick, .tick], x.Drives := by
    simp only [List.mem_cons, List.not_mem_nil, or_false, or_self]
    rintro _ rfl
    exact .tick
  have h := nested_isolated (b := .listed [(0, "/runmacro B")]) (s := thrice)
    (.operate (.idle ..) _) fruitless_silent (List.take_prefix 2 _) hx
    fun ys hy => Nat.lt_of_le_of_lt (List.length_take_le _ _) (hd ys ((List.mem_inits _ _).2 hy))
  exact ⟨h.1, h.2 .tick .tick, by decide +kernel⟩

end Session

end Macros
