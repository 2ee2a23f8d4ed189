import Macros.Proofs.Scheduler.Cases
import Macros.Proofs.Scheduler.Exchange
import Macros.Proofs.Scheduler.Ticks

/-!
A frame that the driver waits for. While its line is run or its script goes on, it stands as the driver
left it, or it is gone and its exchange is over; the line that has been run moves the exchange on. What
the driver does after the line leaves all frames where their exchanges stand.
-/

namespace Macros

open Session Talk

variable {σ τ : Type}

namespace Session

variable {ρ : Rules τ} {A A' : Stand τ} {n m : Nat} {s s' : Session σ τ} {es : List Event}
  {o : Oracle σ τ} {b : Bridge τ}

/-- Between advances. -/
abbrev Stand.fitting (ρ : Rules τ) : Stand τ := fun _ => Fits ρ

/-- While the driver waits for a frame: it stands as it did. -/
def Stand.held (ρ : Rules τ) (id : Nat) (t₀ : Talk τ) (w₀ : Work τ) : Stand τ :=
  fun j t w => if j = id then t = t₀ ∧ w = w₀ else Fits ρ t w

theorem Stand.held_opens (ρ : Rules τ) (id : Nat) (t₀ : Talk τ) (w₀ : Work τ) :
    Stand.Opens ρ (id + 1) (Stand.held ρ id t₀ w₀) := by
  intro j t w hle h
  rw [held, if_neg (Nat.ne_of_gt hle)]
  exact h

theorem Keeps.mono (h : s.Keeps ρ A n) (hm : m ≤ s.nextId)
    (hA : ∀ f ∈ s.stack, A f.id (read ρ f.id s.journal) f.work →
      A' f.id (read ρ f.id s.journal) f.work) : s.Keeps ρ A' m where
  registry := h.registry
  settings := h.settings
  le := hm
  followed := h.followed
  absent := h.absent
  isOn := h.isOn
  gone := h.gone
  below := h.below
  distinct := h.distinct
  frames f hf := hA f hf (h.frames f hf)

/-- A line or a value changes hands. -/
theorem Keeps.own (h : s.Keeps ρ A n) {e : Event} {id : Nat} (he : e.frame? = some id)
    (hid : id < s.nextId) (hallows : Allows id (read ρ id s.journal) e)
    (hover : next ρ id ended e = ended) (hon : (next ρ id (read ρ id s.journal) e).isOn)
    (hother : ∀ f ∈ s.stack, f.id ≠ id → ∀ t, A f.id t f.work → A' f.id t f.work)
    (hown : ∀ f ∈ s.stack, f.id = id → ∀ t, A f.id t f.work → A' f.id (next ρ id t e) f.work) :
    (s.record e).Keeps ρ A' n where
  registry := h.registry
  settings := h.settings
  le := h.le
  followed j := by
    by_cases hj : id = j
    · subst hj
      exact ⟨hallows, h.followed id⟩
    · exact ⟨allows_of_other he hj _, h.followed j⟩
  absent j hle := by
    have hne : id ≠ j := Nat.ne_of_lt (Nat.lt_of_lt_of_le hid hle)
    exact (h.read_other he hne).trans (h.absent j hle)
  isOn j hlt := by
    by_cases hj : id = j
    · subst hj
      exact hon
    · rw [Session.record, h.read_other he hj]
      exact h.isOn j hlt
  gone j hlt ho := by
    by_cases hj : id = j
    · subst hj
      have hg := h.gone id hlt ho
      rw [Session.record, Talk.read, hg, hover]
    · rw [Session.record, h.read_other he hj]
      exact h.gone j hlt ho
  below := h.below
  distinct := h.distinct
  frames f hf := by
    by_cases hj : id = f.id
    · subst hj
      exact hown f hf rfl _ (h.frames f hf)
    · rw [Session.record, h.read_other he hj]
      exact hother f hf (Ne.symm hj) _ (h.frames f hf)

variable {id : Nat} {t₀ : Talk τ} {w₀ : Work τ}

/-- The exchange of a frame that is waited for stands as it did, or is over. -/
theorem Keeps.held_read (h : s.Keeps ρ (Stand.held ρ id t₀ w₀) n) (hid : id < s.nextId) :
    read ρ id s.journal = t₀ ∨ (s.owns id = false ∧ read ρ id s.journal = ended) := by
  by_cases hown : s.owns id
  · obtain ⟨f, hf, rfl⟩ := (owns_iff s id).1 hown
    have hw := h.frames f hf
    rw [Stand.held, if_pos rfl] at hw
    exact .inl hw.1
  · have hown : s.owns id = false := by simpa using hown
    exact .inr ⟨hown, h.gone id hid hown⟩

/-- One may wait for any frame. -/
theorem Keeps.hold (h : s.Keeps ρ (Stand.fitting ρ) n) {f : Frame τ} (hf : f ∈ s.stack) :
    s.Keeps ρ (Stand.held ρ f.id (read ρ f.id s.journal) f.work) (f.id + 1) := by
  refine h.mono (h.below f hf) fun g hg ht => ?_
  by_cases hi : g.id = f.id
  · obtain rfl := List.inj_on_of_nodup_map h.distinct hg hf hi
    rw [Stand.held, if_pos rfl]
    exact ⟨rfl, rfl⟩
  · rwa [Stand.held, if_neg hi]

/-- The driver changes the work of the frame that it waits for. -/
theorem Keeps.held_modify (h : s.Keeps ρ (Stand.held ρ id t₀ w₀) n) {w₁ : Work τ} {g : Frame τ → Frame τ}
    (hi : ∀ f, (g f).id = f.id) (hg : ∀ f, f.work = w₀ → (g f).work = w₁) :
    (s.modify id g).Keeps ρ (Stand.held ρ id t₀ w₁) n := by
  refine h.modify id hi fun f _ t ht => ?_
  by_cases hid : f.id = id
  · rw [Stand.held, if_pos hid] at ht
    rw [Stand.held, if_pos hid, if_pos hid]
    exact ⟨ht.1, hg f ht.2⟩
  · rw [Stand.held, if_neg hid] at ht
    rwa [Stand.held, if_neg hid, if_neg hid]

theorem Keeps.held_native {w : NativeWork} (h : s.Keeps ρ (Stand.held ρ id t₀ (.native w)) n)
    (g : NativeWork → NativeWork) :
    (s.modifyNative id g).Keeps ρ (Stand.held ρ id t₀ (.native (g w))) n :=
  h.held_modify (fun f => by split <;> rfl) fun f hf => by rw [hf]

theorem Keeps.held_script {w : ScriptWork τ} (h : s.Keeps ρ (Stand.held ρ id t₀ (.script w)) n)
    (g : ScriptWork τ → ScriptWork τ) :
    (s.modifyScript id g).Keeps ρ (Stand.held ρ id t₀ (.script (g w))) n :=
  h.held_modify (fun f => by split <;> rfl) fun f hf => by rw [hf]

/-- An event of the frame that is waited for. -/
theorem Keeps.held_own (h : s.Keeps ρ (Stand.held ρ id t₀ w₀) n) (hid : id < s.nextId) {e : Event}
    (he : e.frame? = some id) (hallows : Allows id t₀ e)
    (hallows' : s.owns id = false → Allows id (ended : Talk τ) e)
    (hover : next ρ id ended e = ended) (hon : (next ρ id t₀ e).isOn) :
    (s.record e).Keeps ρ (Stand.held ρ id (next ρ id t₀ e) w₀) n := by
  have hread := h.held_read hid
  refine h.own he hid ?_ hover ?_ (fun f _ hne t ht => ?_) fun f _ hi t ht => ?_
  · rcases hread with hr | ⟨ho, hr⟩ <;> rw [hr]
    · exact hallows
    · exact hallows' ho
  · rcases hread with hr | ⟨-, hr⟩ <;> rw [hr]
    · exact hon
    · rw [hover]
      rfl
  · rw [Stand.held, if_neg hne] at ht ⊢
    exact ht
  · rw [Stand.held, if_pos hi] at ht ⊢
    rw [ht.1]
    exact ⟨rfl, ht.2⟩

/-- A line that is run: what it comes to moves the exchange on. -/
theorem perform_keeps (hb : b.interpreter = ρ.interpreter) (hs : s.Sound) {f : Frame τ}
    (h : s.Keeps ρ (Stand.held ρ f.id t₀ w₀) (f.id + 1)) {i : Instruction}
    (ht : t₀ = ended ∨ ∃ script count, t₀ = running script count i)
    {r : Except Fault LineResult} (hr : s.perform (.ofOracle b o) b f i = (r, s')) :
    r = .error .endless ∨
    (r = .ok none ∧ s'.Keeps ρ (Stand.held ρ f.id t₀ w₀) (f.id + 1)) ∨
    ∃ x, r = .ok (some x) ∧ s'.Keeps ρ (Stand.held ρ f.id (t₀.settle ρ x) w₀) (f.id + 1) := by
  have hon : t₀.isOn := by rcases ht with rfl | ⟨_, _, rfl⟩ <;> rfl
  have hnext : next ρ f.id t₀ (.handed f.id i) = t₀ := forget_of_isOn hon
  have h1 := h.held_own h.le (e := .handed f.id i) rfl (fun _ => ht) (fun _ _ => .inl rfl) rfl
    (by rwa [hnext])
  rw [hnext] at h1
  have hs1 : (s.record (.handed f.id i)).Sound := hs.of_eq rfl rfl rfl rfl
  have h2 := (admits_keeps (Stand.held_opens ρ f.id t₀ w₀) hb o).routine
    (Execution.execute (s.record (.handed f.id i)).settings i).run hs1 ⟨f.id, i, by simp [record]⟩ h1
  have hsettled : ∀ {u : Session σ τ} (x : Outcome), u.Keeps ρ (Stand.held ρ f.id t₀ w₀) (f.id + 1) →
      (u.record (.settled f.id i x)).Keeps ρ (Stand.held ρ f.id (t₀.settle ρ x) w₀) (f.id + 1) := by
    intro u x hu
    have hn : next ρ f.id t₀ (.settled f.id i x) = t₀.settle ρ x := if_pos rfl
    have h3 := hu.held_own hu.le (e := .settled f.id i x) rfl (fun _ => ht) (fun _ _ => .inl rfl)
      (if_pos rfl) (by rw [hn]; exact isOn_settle x hon)
    rwa [hn] at h3
  unfold Session.perform at hr
  dsimp only at hr
  split at hr
  · next x u hx =>
    rw [hx] at h2
    obtain ⟨rfl, rfl⟩ := Prod.mk.inj hr
    exact .inr (.inr ⟨x, rfl, hsettled x h2⟩)
  · next hx =>
    rw [hx] at h2
    obtain ⟨rfl, rfl⟩ := Prod.mk.inj hr
    exact .inr (.inl ⟨rfl, h2.log _ _⟩)
  · obtain ⟨rfl, -⟩ := Prod.mk.inj hr
    exact .inl rfl
  · next hx =>
    rw [hx] at h2
    obtain ⟨rfl, rfl⟩ := Prod.mk.inj hr
    exact .inr (.inr ⟨_, rfl, hsettled _ (h2.log _ _)⟩)

/-! After the line. -/

/-- The frame that was waited for fits its exchange again, or is gone. -/
theorem Keeps.release (h : s.Keeps ρ (Stand.held ρ id t₀ w₀) n) (hfit : s.owns id → Fits ρ t₀ w₀) :
    s.Keeps ρ (Stand.fitting ρ) 0 := by
  refine h.mono (Nat.zero_le _) fun f hf ht => ?_
  by_cases hi : f.id = id
  · rw [Stand.held, if_pos hi] at ht
    rw [ht.1, ht.2]
    exact hfit ((owns_iff s id).2 ⟨f, hf, hi⟩)
  · rwa [Stand.held, if_neg hi] at ht

theorem owns_of_frame?_none (h : s.frame? id = none) : s.owns id = false := by
  rw [frame?, List.find?_eq_none] at h
  simpa [owns] using h

theorem pop_owns (s : Session σ τ) (f : Frame τ) (r : FrameResult) :
    (s.pop f r).owns f.id = false := by
  rw [pop_eq]
  simp [owns, without]

theorem Keeps.popHeld (h : s.Keeps ρ (Stand.held ρ id t₀ w₀) n) {f : Frame τ} (hf : f ∈ s.stack)
    (hi : f.id = id) (r : FrameResult) : (s.pop f r).Keeps ρ (Stand.fitting ρ) 0 :=
  (h.pop hf r).release fun ho => by rw [← hi, pop_owns] at ho; contradiction

theorem Keeps.popIfOwned (h : s.Keeps ρ (Stand.held ρ id t₀ w₀) n) (r : FrameResult) :
    (s.popIfOwned id r).Keeps ρ (Stand.fitting ρ) 0 := by
  unfold Session.popIfOwned
  split
  · next f hf => exact h.popHeld (frame?_some hf).1 (frame?_some hf).2 r
  · next hf => exact h.release fun ho => by rw [owns_of_frame?_none hf] at ho; contradiction

theorem settle_keeps (hu : ρ.settings.Usable) (h : s.Keeps ρ (Stand.held ρ id t₀ w₀) n)
    (i : Instruction) {x : Outcome}
    (hgo : x.ok ∨ ρ.settings.isStopWorthy x = .ok false → Fits ρ t₀ w₀) {r : Except Fault Bool}
    (hr : s.settle id i x = (r, s')) : (∃ p, r = .ok p) ∧ s'.Keeps ρ (Stand.fitting ρ) 0 := by
  unfold settle at hr
  split at hr
  · next hf =>
    obtain ⟨rfl, rfl⟩ := Prod.mk.inj hr
    exact ⟨⟨_, rfl⟩, h.release fun ho => by rw [owns_of_frame?_none hf] at ho; contradiction⟩
  · next f hf =>
    split at hr
    · next hx =>
      obtain ⟨rfl, rfl⟩ := Prod.mk.inj hr
      exact ⟨⟨_, rfl⟩, h.release fun _ => hgo (.inl hx)⟩
    · dsimp only at hr
      rw [h.settings] at hr
      obtain ⟨y, hy⟩ := hu.isStopWorthy x
      rw [hy] at hr
      cases y with
      | true =>
        obtain ⟨rfl, rfl⟩ := Prod.mk.inj hr
        exact ⟨⟨_, rfl⟩, (h.log _ _).popHeld (frame?_some hf).1 (frame?_some hf).2 _⟩
      | false =>
        obtain ⟨rfl, rfl⟩ := Prod.mk.inj hr
        exact ⟨⟨_, rfl⟩, (h.log _ _).release fun _ => hgo (.inr hy)⟩

theorem Keeps.enterNotReady (h : s.Keeps ρ A n) : s.enterNotReady.Keeps ρ A n := by
  unfold Session.enterNotReady
  split
  · exact h
  · exact ((h.prior _).setState _).log _ _

theorem Keeps.loopFlags (h : s.Keeps ρ A n) (id : Nat) : (s.loopFlags id).Keeps ρ A n := by
  unfold Session.loopFlags
  split
  · exact h
  · split
    · exact (h.log _ _).halt
    · split
      · have h1 := h.mark id (fun _ => false) (·.stopAtLoop)
        refine Keeps.log ?_ _ _
        split
        · exact h1.setState _
        · exact h1
      · exact h

/-- Where a native macro stands is nothing to the exchange. -/
theorem Keeps.modifyNative (h : s.Keeps ρ (Stand.fitting ρ) n) (id : Nat) (g : NativeWork → NativeWork) :
    (s.modifyNative id g).Keeps ρ (Stand.fitting ρ) n := by
  refine h.modify id (fun f => by split <;> rfl) fun f _ t ht => ?_
  split
  · cases hw : f.work with
    | native w =>
      rw [hw] at ht
      cases ht
      exact .native _
    | script w =>
      show Fits ρ t f.work
      exact ht
  · exact ht

theorem reportLoop_keeps (h : s.Keeps ρ A n) (name : Value) (done : Nat) (count : Option Int) :
    (s.reportLoop name done count).2.Keeps ρ A n := by
  have h1 : (s.record (.loop name done count)).Keeps ρ A n := h.record rfl rfl
  unfold reportLoop
  dsimp only
  split
  · exact h1
  · exact h1.emitStatus
  · exact (h1.log _ _).emitStatus

theorem loopBoundary_keeps (h : s.Keeps ρ (Stand.fitting ρ) n) (id k : Nat) (count : Option Int) :
    (s.loopBoundary id k count).2.Keeps ρ (Stand.fitting ρ) n := by
  unfold loopBoundary
  split
  · exact h
  · next f _ =>
    split
    · exact h.loopFlags id
    · split
      · exact h.loopFlags id
      · next w _ =>
        have h1 := h.modifyNative id fun w => passLoop w k count
        have h2 := reportLoop_keeps h1
          ((s.modifyNative id fun w => passLoop w k count).nameOf f) (w.loopsDone + 1) count
        dsimp only
        split
        · split
          · next hr => rw [hr] at h2; exact h2
          · next hr => rw [hr] at h2; exact h2.loopFlags id
        · exact h1.loopFlags id

theorem Keeps.popIfDone (h : s.Keeps ρ A n) (id : Nat) : (s.popIfDone id).Keeps ρ A n := by
  rcases popIfDone_cases s id with he | ⟨f, hf, he⟩
  · rwa [he]
  · rw [he]
    exact h.pop hf _

theorem afterNative_keeps (hu : ρ.settings.Usable) {w : NativeWork}
    (h : s.Keeps ρ (Stand.held ρ id ended (.native w)) n) (k : Nat) (i : Instruction) (x : LineResult) :
    (s.afterNative id k i x).2.Keeps ρ (Stand.fitting ρ) 0 := by
  unfold afterNative
  cases x with
  | none =>
    have h1 := h.release fun _ => Fits.native w
    dsimp only
    split
    · exact (h1.modifyNative id _).enterNotReady.emitStatus
    · exact h1
  | some x =>
    have h1 : ∀ {r s'}, s.settle id i x = (r, s') → s'.Keeps ρ (Stand.fitting ρ) 0 := fun hr =>
      (settle_keeps hu h i (fun _ => Fits.native w) hr).2
    dsimp only
    split
    · next hr => exact h1 hr
    · next hr => exact h1 hr
    · next t hr =>
      split
      · have h2 := loopBoundary_keeps (h1 hr) id k (loopCount i)
        split
        · next hr => rw [hr] at h2; exact h2
        · next hr => rw [hr] at h2; exact h2.popIfDone id
      · exact (h1 hr).popIfDone id

end Session

end Macros
