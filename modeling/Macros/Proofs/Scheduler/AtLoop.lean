import Macros.Proofs.Scheduler.LoopLine
import Macros.Proofs.Scheduler.Ticks

/-!
Requests for the next loop line. Such a request is kept as a mark of the frame that is innermost when it is
made. It is honoured at the first loop line that is completed if that is one of this frame; if it is one of
another frame the run goes on, and if the frame ends before, the request is forgotten.
-/

namespace Macros

namespace Session

open Journal

variable {σ τ : Type} {o : Oracle σ τ} {b : Bridge τ} {s u u' v w : Session σ τ} {l : Flight σ τ}
  {f g : Frame τ} {id k : Nat}

/-- Every frame was stopped and reported so, the innermost first. -/
def StoppedWhole (u u' : Session σ τ) : Prop :=
  u'.stack = [] ∧ u'.state = .idle ∧
    finishes (u.news u') = u.stack.map fun f => (u.nameOf f, .stopped)

/-- The last line of the only frame has been passed. -/
def FellThrough (u u' : Session σ τ) : Prop :=
  ∃ f, u.stack = [f] ∧ u'.stack = [] ∧ finishes (u.news u') = [(u.nameOf f, .completed)]

/-- The same frames, none of which has ended. -/
def Intact (u w : Session σ τ) : Prop :=
  w.stack.map (fun f => (f.id, f.node)) = u.stack.map (fun f => (f.id, f.node)) ∧ w.tree = u.tree ∧
    ∃ es, w.journal = es ++ u.journal ∧ finishes es = []

theorem Intact.trans (h : Intact u v) (h' : Intact v w) : Intact u w := by
  obtain ⟨hs, ht, es, hj, he⟩ := h
  obtain ⟨hs', ht', es', hj', he'⟩ := h'
  exact ⟨hs'.trans hs, ht'.trans ht, es' ++ es, by rw [hj', hj, List.append_assoc],
    by rw [finishes_append, he, he', List.append_nil]⟩

theorem pairs_of_tags (h : w.stack.map (·.tag) = u.stack.map (·.tag)) :
    w.stack.map (fun f => (f.id, f.node)) = u.stack.map (fun f => (f.id, f.node)) := by
  have := congrArg (List.map fun t => (t.1, t.2.1)) h
  simpa [List.map_map, Function.comp_def, Frame.tag] using this

theorem Worked.intact (h : Worked u w) : Intact u w := by
  obtain ⟨fs, es, he, ht, rfl⟩ := h
  exact ⟨pairs_of_tags ht, rfl, es, rfl, finishes_of_remark he⟩

theorem Unmoved.intact {es : List Event} (h : Unmoved u w es) (hj : w.journal = es ++ u.journal) :
    Intact u w :=
  ⟨pairs_of_tags h.tags, h.tree, es, hj, h.finishes⟩

theorem Intact.names (h : Intact u w) :
    w.stack.map (fun f => (w.nameOf f, FrameResult.stopped)) =
      u.stack.map fun f => (u.nameOf f, .stopped) := by
  have := congrArg (List.map fun p => (u.tree.name p.2, FrameResult.stopped)) h.1
  simpa [List.map_map, Function.comp_def, nameOf, h.2.1] using this

theorem Intact.not_stopped (h : Intact u w) (hn : u.stack ≠ []) : ¬StoppedWhole u w := fun hx => by
  obtain ⟨hs, -, -⟩ := h
  rw [hx.1] at hs
  exact hn (List.map_eq_nil_iff.1 hs.symm)

theorem Intact.not_through (h : Intact u w) : ¬FellThrough u w := by
  rintro ⟨f, hf, hw, -⟩
  obtain ⟨hs, -, -⟩ := h
  rw [hf, hw] at hs
  simp at hs

/-! A frame ends with its last line. -/

theorem Intact.pop_news (h : Intact u w) (f : Frame τ) (r : FrameResult) :
    finishes (u.news (w.pop f r)) = [(w.nameOf f, r)] := by
  obtain ⟨-, -, es, hj, he⟩ := h
  have hj' : (w.pop f r).journal = (w.popNews f r ++ es) ++ u.journal := by
    rw [pop_eq, List.append_assoc, ← hj]
  rw [news_eq hj', finishes_append, he, finishes_popNews, List.append_nil]

/-- A frame that is the only one to end, as completed: nothing is stopped, and if it was the only one
there is, the run is over. -/
theorem Intact.pop (h : Intact u w) (hs : u.Sound) (hf : f ∈ w.stack) :
    ¬StoppedWhole u (w.pop f .completed) ∧
      ((w.pop f .completed).state = .idle ∧ FellThrough u (w.pop f .completed) ∨
        (w.pop f .completed).state = w.state ∧ ¬FellThrough u (w.pop f .completed)) := by
  have hm := h.pop_news f .completed
  constructor
  · rintro ⟨-, -, hx⟩
    rw [hm] at hx
    cases hu : u.stack <;> simp [hu] at hx
  · by_cases he : w.without f.id = []
    · refine .inl ⟨by rw [pop_eq]; simp [he], ?_⟩
      -- all frames have the number of this one, so there is no other
      have hid : ∀ p ∈ u.stack.map fun f => (f.id, f.node), p.1 = f.id := by
        rw [← h.1]
        simpa [without] using he
      have hp : (f.id, f.node) ∈ u.stack.map fun f => (f.id, f.node) := h.1 ▸ List.mem_map_of_mem hf
      obtain ⟨g, hg, hgf⟩ := List.mem_map.1 hp
      simp only [Prod.mk.injEq] at hgf
      have hall : ∀ g' ∈ u.stack, g' = g := fun g' hg' =>
        hs.eq_of_id hg' hg ((hid _ (List.mem_map_of_mem hg')).trans hgf.1.symm)
      refine ⟨g, ?_, by rw [pop_eq]; exact he, ?_⟩
      · have hd := hs.numbered
        rcases hu : u.stack with _ | ⟨x, _ | ⟨y, ys⟩⟩
        · simp [hu] at hg
        · rw [hall x (by simp [hu])]
        · rw [hu] at hd
          have hlt := (List.pairwise_cons.1 hd).1 y (by simp)
          rw [hall x (by simp [hu]), hall y (by simp [hu])] at hlt
          omega
      · rw [hm, nameOf, nameOf, h.2.1, hgf.2]
    · refine .inr ⟨by rw [pop_eq]; simp [he], ?_⟩
      rintro ⟨-, -, hx, -⟩
      rw [pop_eq] at hx
      exact he hx

theorem Intact.passed (h : Intact u w) (hs : u.Sound) (hn : u.stack ≠ [])
    (hw : u' = w ∨ u' = w.popIfDone id) :
    ¬StoppedWhole u u' ∧
      (u'.state = .idle ∧ FellThrough u u' ∨ u'.state = w.state ∧ ¬FellThrough u u') := by
  rcases hw with rfl | rfl
  · exact ⟨h.not_stopped hn, .inr ⟨rfl, h.not_through⟩⟩
  · rcases popIfDone_cases w id with he | ⟨f, hf, he⟩
    · rw [he]
      exact ⟨h.not_stopped hn, .inr ⟨rfl, h.not_through⟩⟩
    · rw [he]
      exact h.pop hs hf

/-! What the marks lead to. -/

theorem loopFlags_calm (hg : s.frame? id = some g) (hs : g.stopAtLoop = false)
    (hp : g.pauseAtLoop = false) : s.loopFlags id = s := by
  unfold loopFlags
  rw [hg]
  simp [hs, hp]

theorem loopFlags_pauses (hg : s.frame? id = some g) (hs : g.stopAtLoop = false)
    (hp : g.pauseAtLoop) (hr : s.state = .running) :
    (s.loopFlags id).state = .paused ∧ Intact s (s.loopFlags id) := by
  have hm : (s.modify id fun f => { f with pauseAtLoop := false }).state = .running := hr
  have he : s.loopFlags id =
      (({ s.modify id fun f => { f with pauseAtLoop := false } with state := .paused }.record
        (.state .paused)).log .info ((s.nameOf g).plain ++ ": paused at loop")) := by
    unfold loopFlags
    rw [hg]
    simp only [hs, hp, Bool.false_eq_true, ↓reduceIte, hm]
    rw [setState, if_neg (by simp [hm])]
    rfl
  rw [he]
  exact ⟨rfl, modify_map (p := fun f => (f.id, f.node)) s id fun _ => rfl, rfl,
    [.log .info _, .state .paused], rfl, rfl⟩

theorem loopFlags_stops (h : s.Sound) (hu : Intact u s) (hg : s.frame? id = some g)
    (hs : g.stopAtLoop) : StoppedWhole u (s.loopFlags id) := by
  have hr := remarked_log s .info ((s.nameOf g).plain ++ ": stopped at loop")
  have he : s.loopFlags id = (s.log .info ((s.nameOf g).plain ++ ": stopped at loop")).halt := by
    unfold loopFlags
    rw [hg]
    simp [hs]
  have h1 := hr.readied.sound h
  obtain ⟨h2, -, h3⟩ := halt_spec (o := .still) h1
  obtain ⟨es, hj, hf⟩ := halt_finishes (s.log .info ((s.nameOf g).plain ++ ": stopped at loop"))
  obtain ⟨-, -, es', hj', hf'⟩ := hu.trans hr.worked.intact
  have hn := (hu.trans hr.worked.intact).names
  rw [he]
  refine ⟨h3, (h2.sound h1).idle_iff.2 h3, ?_⟩
  rw [news_eq (hj.trans (by rw [hj', ← List.append_assoc])), finishes_append, hf', hf, List.append_nil, hn]

/-! A tick in which a loop line is completed. -/

theorem follow_suffix (l : Flight σ τ) (s : Session σ τ) (x : LineResult) :
    s.journal <:+ (l.follow s x).2.journal := by
  unfold Flight.follow
  split
  · exact afterNative_journal_suffix s _ _ _ x
  · exact afterScript_journal_suffix s _ _ _ x

/-- The run is paused now, or it came to its end with this loop line. -/
def PausedOrThrough (u u' : Session σ τ) : Prop :=
  u'.state = .paused ∨ u'.state = .idle ∧ FellThrough u u'

theorem StoppedWhole.not_through (h : StoppedWhole u u') : ¬FellThrough u u' := by
  rintro ⟨f, hf, -, hx⟩
  have hn := h.2.2
  rw [hx, hf] at hn
  simp at hn

/-- What the marks of the frame make of a loop line that has gone through. -/
theorem follow_decides (h : u.Sound) (hn : u.stack ≠ []) (hs : s.Sound) (hu : Intact u s)
    (hr : s.state = .running) (hg : s.frame? l.frame.id = some g) {x : Outcome}
    (hx : completesLoop l.line x) :
    (StoppedWhole u (l.follow s (some x)).2 ↔ g.stopAtLoop) ∧
      (PausedOrThrough u (l.follow s (some x)).2 ↔ FellThrough u (l.follow s (some x)).2 ∨
        g.pauseAtLoop ∧ g.stopAtLoop = false ∧ (l.follow s (some x)).1.isOk) := by
  rcases follow_loop hs hg hx with ⟨hm, e, t, ht, he⟩ | ⟨t, ht, hst, he⟩
  · -- the settings cannot be read, so the marks are not looked at
    have hi := hu.trans ht.intact
    have hp : t.state = .running := ht.unmoved.running hr
    rw [he]
    exact ⟨by simp [hi.not_stopped hn, hm],
      by simp [PausedOrThrough, hp, hi.not_through, Except.isOk, Except.toBool]⟩
  · have hi := hu.trans ht.intact
    have hp : t.state = .running := ht.unmoved.running hr
    obtain ⟨g', hg', htag⟩ := frame?_of_tags ht.unmoved.tags hg
    simp only [Frame.tag, Prod.mk.injEq] at htag
    obtain ⟨-, -, -, hpause, hstop⟩ := htag
    have hok : (l.follow s (some x)).1.isOk := by rcases he with he | he <;> rw [he] <;> rfl
    have he : (l.follow s (some x)).2 = t.loopFlags l.frame.id ∨
        (l.follow s (some x)).2 = (t.loopFlags l.frame.id).popIfDone l.frame.id :=
      he.imp (congrArg Prod.snd) (congrArg Prod.snd)
    by_cases hm : g.stopAtLoop
    · have hw := loopFlags_stops (hst hm) hi hg' (hstop.trans hm)
      rw [popIfDone_nil hw.1, or_self] at he
      rw [he]
      exact ⟨by simp [hw, hm], by simp [PausedOrThrough, hw.2.1, hw.not_through, hm]⟩
    · have hm : g.stopAtLoop = false := by simpa using hm
      obtain ⟨w, hw, hwt, hws⟩ : ∃ w, t.loopFlags l.frame.id = w ∧ Intact u w ∧
          w.state = if g.pauseAtLoop then .paused else .running := by
        by_cases hq : g.pauseAtLoop
        · obtain ⟨h1, h2⟩ := loopFlags_pauses hg' (hstop.trans hm) (hpause.trans hq) hp
          exact ⟨_, rfl, hi.trans h2, by simp [h1, hq]⟩
        · have hq : g.pauseAtLoop = false := by simpa using hq
          exact ⟨t, loopFlags_calm hg' (hstop.trans hm) (hpause.trans hq), hi, by simp [hp, hq]⟩
      rw [hw] at he
      obtain ⟨h1, h2⟩ := hwt.passed h hn he
      refine ⟨by simp [h1, hm], ?_⟩
      rcases h2 with ⟨h2, h3⟩ | ⟨h2, h3⟩
      · simp [PausedOrThrough, h2, h3]
      · rw [hws] at h2
        cases hq : g.pauseAtLoop <;> simp [PausedOrThrough, h2, h3, hq, hm, hok]

theorem landed_suffix (h : s.Sound) (hl : s.tickFlight? (.ofOracle b o) b = some l) :
    s.journal <:+ (l.landed (.ofOracle b o) b).2.journal := by
  have h0 := recover_changes (o := o) (b := b) h
  have h1 := tickStart_meanwhile (o := o) (b := b) h
  obtain ⟨h2, hj, -⟩ := flight_spec (h1.changes.sound (Changes.sound h0 h)) (tickFlight?_some hl).2
  have h3 := ((meanwhile b o).perform h2 l.frame l.line).changes.journal_suffix
  exact (Changes.journal_suffix (h0.trans h1.changes) |>.trans hj).trans ((List.suffix_cons _ _).trans h3)

/-- A tick whose line goes through ends with what follows the line. -/
theorem tick_follows {x : LineResult} (hl : s.tickFlight? (.ofOracle b o) b = some l)
    (hx : (l.landed (.ofOracle b o) b).1 = .ok x) :
    s.tick (.ofOracle b o) b = l.follow (l.landed (.ofOracle b o) b).2 x := by
  rw [tick_flight hl]
  unfold Flight.conclude
  split
  · next hp => simp [hp] at hx
  · next hp =>
    rw [hp] at hx ⊢
    rw [Except.ok.inj hx]

/-- What the marks of a frame make of the loop line that it completes. -/
theorem loop_tick (h : s.Sound) (hl : s.loopedBy? (.ofOracle b o) b = some id)
    (hn : ∀ e ∈ s.news (s.tick (.ofOracle b o) b).2, ¬e.isControl) :
    ∃ f ∈ s.stack, f.id = id ∧
      (StoppedWhole s (s.tick (.ofOracle b o) b).2 ↔ f.stopAtLoop) ∧
      (PausedOrThrough s (s.tick (.ofOracle b o) b).2 ↔
        FellThrough s (s.tick (.ofOracle b o) b).2 ∨
          f.pauseAtLoop ∧ f.stopAtLoop = false ∧ (s.tick (.ofOracle b o) b).1.isOk) := by
  obtain ⟨l, x, hf, hx, hc, rfl⟩ := loopedBy?_some hl
  rw [tick_follows hf hx] at hn ⊢
  obtain ⟨es, hj⟩ := follow_suffix l (l.landed (.ofOracle b o) b).2 (some x)
  obtain ⟨es', hj'⟩ := landed_suffix h hf
  have hq : ∀ e ∈ s.news (l.landed (.ofOracle b o) b).2, ¬e.isControl := by
    rw [news_eq hj'.symm]
    rw [news_eq (hj.symm.trans (by rw [← hj', ← List.append_assoc]))] at hn
    exact (List.forall_mem_append.1 hn).2
  obtain ⟨hm, hr, hs, f, hfm, hft⟩ := loop_landed h hf (completesLoop_command hc) hq
  have hi : f.id = l.frame.id := congrArg Prod.fst hft
  obtain ⟨g, hg, hgf⟩ := frame?_of_tags hm.tags (frame?_of_mem h hfm)
  rw [hi] at hg
  simp only [Frame.tag, Prod.mk.injEq] at hgf
  obtain ⟨-, -, -, hpause, hstop⟩ := hgf
  have hd := follow_decides h (List.ne_nil_of_mem hfm) hs
    (hm.intact (by rw [news_eq hj'.symm, hj'])) hr hg hc
  rw [hpause, hstop] at hd
  exact ⟨f, hfm, hi, hd⟩

/-! Whole runs, until a loop line is completed. -/

/-- Is the frame there, and marked? -/
def Marked (p : Frame τ → Bool) (s : Session σ τ) (id : Nat) : Prop := ∃ f ∈ s.stack, f.id = id ∧ p f

/-- No control call comes in during the ticks, and only the last of them may complete a loop line. -/
structure Uneventful (c : Client σ τ) (b : Bridge τ) (u : Session σ τ) (k : Nat) : Prop where
  alone : ∀ e ∈ u.news (u.ticks c b (k + 1)), ¬e.isControl
  unlooped : ∀ j < k, (u.ticks c b j).loopedBy? c b = none

theorem news_trans (h : u.journal <:+ v.journal) (h' : v.journal <:+ w.journal) :
    u.news w = v.news w ++ u.news v := by
  obtain ⟨es, hj⟩ := h
  obtain ⟨es', hj'⟩ := h'
  rw [news_eq hj'.symm, news_eq hj.symm]
  exact news_eq (by rw [← hj', ← hj, List.append_assoc])

theorem ticks_sound (h : u.Sound) (k : Nat) : (u.ticks (.ofOracle b o) b k).Sound :=
  Changes.sound (operate_changes (o := o) (b := b) h _) h

theorem ticks_onward (h : u.Sound)
    (hl : ∀ j < k, (u.ticks (.ofOracle b o) b j).loopedBy? (.ofOracle b o) b = none) :
    Onward u (u.ticks (.ofOracle b o) b k) := by
  induction k with
  | zero => exact .refl u
  | succ k ih =>
    rw [ticks_succ]
    exact (ih fun j hj => hl j (Nat.lt_succ_of_lt hj)).trans
      (tick_onward (ticks_sound h k) (hl k (Nat.lt_succ_self k)))

/-- Until a loop line is completed the run goes on as it is, and no frame gets or loses a mark. -/
theorem Uneventful.went (h : u.Sound) (hg : u.Going) (hq : u.Uneventful (.ofOracle b o) b k) :
    Went u (u.ticks (.ofOracle b o) b k) (u.news (u.ticks (.ofOracle b o) b k)) ∧
      ∀ e ∈ (u.ticks (.ofOracle b o) b k).news ((u.ticks (.ofOracle b o) b k).tick (.ofOracle b o) b).2,
        ¬e.isControl := by
  obtain ⟨-, es, hj, hw⟩ := ticks_onward (b := b) (o := o) h hq.unlooped
  have ht := tick_changes (o := o) (b := b) (ticks_sound (o := o) (b := b) h k)
  have hn := hq.alone
  rw [ticks_succ, news_trans ⟨es, hj.symm⟩ ht.journal_suffix] at hn
  obtain ⟨hn', hn⟩ := List.forall_mem_append.1 hn
  rw [news_eq hj] at hn ⊢
  exact ⟨hw hn hg, hn'⟩

theorem Went.marked {es : List Event} (h : u.Sound) (hw : Went u v es) (hf : f ∈ v.stack) :
    (f.pauseAtLoop ↔ u.Marked (·.pauseAtLoop) f.id) ∧ (f.stopAtLoop ↔ u.Marked (·.stopAtLoop) f.id) := by
  rcases hw.marks f hf with ⟨g, hg, hi, hp, hs⟩ | ⟨hi, hp, hs⟩
  · have hu : ∀ p : Frame τ → Bool, u.Marked p f.id ↔ p g := fun p =>
      ⟨fun ⟨e, he, hei, hep⟩ => h.eq_of_id he hg (hei.trans hi.symm) ▸ hep, fun hx => ⟨g, hg, hi, hx⟩⟩
    rw [hu, hu, hp, hs]
    exact ⟨.rfl, .rfl⟩
  · have hu : ∀ p : Frame τ → Bool, ¬u.Marked p f.id := fun p ⟨e, he, hei, _⟩ =>
      absurd (h.fresh e he) (by omega)
    simp [hp, hs, hu]

/-- The first loop line that is completed is left to the marks that there were before. -/
theorem Uneventful.loop (h : u.Sound) (hg : u.Going) (hq : u.Uneventful (.ofOracle b o) b k)
    (hl : (u.ticks (.ofOracle b o) b k).loopedBy? (.ofOracle b o) b = some id) :
    (StoppedWhole (u.ticks (.ofOracle b o) b k) (u.ticks (.ofOracle b o) b (k + 1)) ↔
        u.Marked (·.stopAtLoop) id) ∧
      (PausedOrThrough (u.ticks (.ofOracle b o) b k) (u.ticks (.ofOracle b o) b (k + 1)) ↔
        FellThrough (u.ticks (.ofOracle b o) b k) (u.ticks (.ofOracle b o) b (k + 1)) ∨
          u.Marked (·.pauseAtLoop) id ∧ ¬u.Marked (·.stopAtLoop) id ∧
            ((u.ticks (.ofOracle b o) b k).tick (.ofOracle b o) b).1.isOk) := by
  obtain ⟨hw, hn⟩ := hq.went h hg
  obtain ⟨f, hf, rfl, hs, hp⟩ := loop_tick (ticks_sound h k) hl hn
  obtain ⟨h1, h2⟩ := hw.marked h hf
  rw [ticks_succ, ← h1, ← h2]
  simpa using ⟨hs, hp⟩

/-! The request itself. -/

theorem marked_markTop {m : Frame τ → Frame τ} {p : Frame τ → Bool} (hi : ∀ f, (m f).id = f.id)
    (hp : ∀ f, p (m f)) (ht : s.top? = some g) :
    (s.markTop m).Marked p id ↔ s.top?.map (·.id) = some id ∨ s.Marked p id := by
  unfold markTop
  rw [ht]
  simp only [Marked, Session.modify, List.mem_map, Option.map_some, Option.some.injEq]
  constructor
  · rintro ⟨-, ⟨f, hf, rfl⟩, hfi, hfp⟩
    split at hfi
    · next he => exact .inl (he.symm.trans ((hi f).symm.trans hfi))
    · next he => exact .inr ⟨f, hf, hfi, by rwa [if_neg he] at hfp⟩
  · rintro (rfl | ⟨f, hf, rfl, hfp⟩)
    · exact ⟨_, ⟨g, top?_mem ht, rfl⟩, by simp [hi], by simp [hp]⟩
    · refine ⟨_, ⟨f, hf, rfl⟩, ?_, ?_⟩
      · split
        · exact hi f
        · rfl
      · split
        · exact hp f
        · exact hfp

theorem marked_markTop_other {m : Frame τ → Frame τ} {p : Frame τ → Bool} (hi : ∀ f, (m f).id = f.id)
    (hp : ∀ f, p (m f) = p f) : (s.markTop m).Marked p id ↔ s.Marked p id := by
  have hm : ∀ t : Session σ τ, t.Marked p id ↔ (id, true) ∈ t.stack.map fun f => (f.id, p f) :=
    fun t => by simp [Marked]
  rw [hm, hm]
  unfold markTop
  split
  · rw [modify_map (p := fun f => (f.id, p f)) s _ fun f => by simp [hi, hp]]
  · rfl

theorem markTop_state (s : Session σ τ) (m : Frame τ → Frame τ) : (s.markTop m).state = s.state := by
  unfold markTop
  split <;> rfl

theorem Sound.top_of_running (h : s.Sound) (hr : s.state = .running) : ∃ g, s.top? = some g := by
  have hn : s.stack ≠ [] := fun he => by simp [h.idle_iff.2 he] at hr
  exact ⟨_, List.getLast?_eq_some_getLast hn⟩

/-- A request marks the innermost frame, and changes nothing else that matters. -/
theorem stopAtLoop_marks (h : s.Sound) (hr : s.state = .running) :
    ((Control.stop true).apply b s).state = .running ∧ ∀ id,
      ((Control.stop true).apply b s).Marked (·.stopAtLoop) id ↔
        s.top?.map (·.id) = some id ∨ s.Marked (·.stopAtLoop) id := by
  obtain ⟨g, ht⟩ := h.top_of_running hr
  have he : (s.record (.calling (.stop true))).stop true =
      ((s.record (.calling (.stop true))).markTop fun f => { f with stopAtLoop := true }).log .info
        "Stopping at the next loop" := by
    have hn : s.stack ≠ [] := fun he => by simp [top?, he] at ht
    simp [stop, record, hn]
  simp only [Control.apply, Control.perform, he]
  refine ⟨(markTop_state _ _).trans hr, fun id => ?_⟩
  exact marked_markTop (s := s.record (.calling (.stop true))) (fun _ => rfl) (fun _ => rfl) ht

theorem pauseAtLoop_marks (h : s.Sound) (hr : s.state = .running) :
    ((Control.pause true).apply b s).state = .running ∧ ∀ id,
      (((Control.pause true).apply b s).Marked (·.pauseAtLoop) id ↔
        s.top?.map (·.id) = some id ∨ s.Marked (·.pauseAtLoop) id) ∧
      (((Control.pause true).apply b s).Marked (·.stopAtLoop) id ↔ s.Marked (·.stopAtLoop) id) := by
  obtain ⟨g, ht⟩ := h.top_of_running hr
  have he : (s.record (.calling (.pause true))).pause true =
      ((s.record (.calling (.pause true))).markTop fun f => { f with pauseAtLoop := true }).log .info
        "Pausing at the next loop" := by
    have hn : s.stack ≠ [] := fun he => by simp [top?, he] at ht
    simp [pause, Session.pauseAtLoop, record, hn, hr]
  simp only [Control.apply, Control.perform, he]
  refine ⟨(markTop_state _ _).trans hr, fun id => ⟨?_, ?_⟩⟩
  · exact marked_markTop (s := s.record (.calling (.pause true))) (fun _ => rfl) (fun _ => rfl) ht
  · exact marked_markTop_other (s := s.record (.calling (.pause true))) (fun _ => rfl) fun _ => rfl

/-- What becomes of a request for the next loop line. Before a loop line is completed nothing is stopped or
paused. The first that is completed stops everything if it is one of the frame that was innermost when the
request was made, or of one that an earlier request had marked, and only then; a request to pause is
honoured there in the same way, unless the frame is to stop or the settings cannot be read. -/
theorem next_loop_honoured_iff (h : s.Reachable (.ofOracle b o) b) (hr : s.state = .running) (k : Nat) :
    (∀ u, u = (Control.stop true).apply b s → u.Uneventful (.ofOracle b o) b k →
      (∀ e ∈ u.news (u.ticks (.ofOracle b o) b k), ¬e.interrupts) ∧
      ∀ id, (u.ticks (.ofOracle b o) b k).loopedBy? (.ofOracle b o) b = some id →
        (StoppedWhole (u.ticks (.ofOracle b o) b k) (u.ticks (.ofOracle b o) b (k + 1)) ↔
          s.top?.map (·.id) = some id ∨ s.Marked (·.stopAtLoop) id)) ∧
    ∀ u, u = (Control.pause true).apply b s → u.Uneventful (.ofOracle b o) b k →
      (∀ e ∈ u.news (u.ticks (.ofOracle b o) b k), ¬e.interrupts) ∧
      (u.ticks (.ofOracle b o) b k).state ≠ .paused ∧
      ∀ id, (u.ticks (.ofOracle b o) b k).loopedBy? (.ofOracle b o) b = some id →
        (PausedOrThrough (u.ticks (.ofOracle b o) b k) (u.ticks (.ofOracle b o) b (k + 1)) ↔
          FellThrough (u.ticks (.ofOracle b o) b k) (u.ticks (.ofOracle b o) b (k + 1)) ∨
            (s.top?.map (·.id) = some id ∨ s.Marked (·.pauseAtLoop) id) ∧
              ¬s.Marked (·.stopAtLoop) id ∧
              ((u.ticks (.ofOracle b o) b k).tick (.ofOracle b o) b).1.isOk) := by
  have hs := h.sound
  constructor
  · rintro u rfl hq
    obtain ⟨hg, hm⟩ := stopAtLoop_marks (b := b) hs hr
    have hu := (apply_meanwhile (o := o) b (.stop true) hs).changes.sound hs
    refine ⟨(hq.went hu (.inr (.inl hg))).1.calm, fun id hl => ?_⟩
    rw [← hm]
    exact (hq.loop hu (.inr (.inl hg)) hl).1
  · rintro u rfl hq
    obtain ⟨hg, hm⟩ := pauseAtLoop_marks (b := b) hs hr
    have hu := (apply_meanwhile (o := o) b (.pause true) hs).changes.sound hs
    have hw := (hq.went hu (.inr (.inl hg))).1
    refine ⟨hw.calm, fun hp => ?_, fun id hl => ?_⟩
    · rcases hw.going with hx | hx | ⟨hx, -⟩ <;> simp [hp] at hx
    · rw [← (hm id).1, ← (hm id).2]
      exact (hq.loop hu (.inr (.inl hg)) hl).2

/-- The macro A has been started, and has been ticked once. -/
def underWay (macros : List Document) : Session Unit Lines :=
  (Session.waiting macros ()).operate (.ofOracle (.listed []) .still) (.listed [])
    [.control (.runByName "A" none), .tick]

theorem underWay_reachable (macros : List Document) :
    (underWay macros).Reachable (.ofOracle (.listed []) .still) (.listed []) :=
  .operate (.idle ..) _

/-- A macro that comes to a loop line next. -/
def looping : Session Unit Lines := underWay [.native "A" "/send X\n/loop"]

theorem own_loop_honours :
    StoppedWhole ((Control.stop true).apply (.listed []) looping)
        (((Control.stop true).apply (.listed []) looping).ticks (.ofOracle (.listed []) .still)
          (.listed []) 1) ∧
      PausedOrThrough ((Control.pause true).apply (.listed []) looping)
        (((Control.pause true).apply (.listed []) looping).ticks (.ofOracle (.listed []) .still)
          (.listed []) 1) := by
  obtain ⟨h1, h2⟩ := next_loop_honoured_iff (underWay_reachable _) (s := looping) (by decide +kernel) 0
  obtain ⟨-, h1⟩ := h1 _ rfl ⟨by decide +kernel, by simp⟩
  obtain ⟨-, -, h2⟩ := h2 _ rfl ⟨by decide +kernel, by simp⟩
  refine ⟨(h1 0 (by decide +kernel)).2 (.inl (by decide +kernel)), (h2 0 (by decide +kernel)).2 (.inr ?_)⟩
  have hm : ¬looping.Marked (·.stopAtLoop) 0 := by
    unfold Marked
    decide +kernel
  exact ⟨.inl (by decide +kernel), hm, by decide +kernel⟩

/-- A macro that waits for another before its own loop line. -/
def nesting : Session Unit Lines :=
  underWay [.native "A" "/runmacro B\n/loop", .native "B" "/send X"]

/-- A request is forgotten: it is kept by the macro B, which ends without a loop line, and the loop line of
the macro A is completed as if nothing had been asked. -/
theorem next_loop_forgotten :
    nesting.Reachable (.ofOracle (.listed []) .still) (.listed []) ∧ nesting.state = .running ∧
      ∀ c ∈ [Control.stop true, .pause true],
        let u := c.apply (.listed []) nesting
        u.Uneventful (.ofOracle (.listed []) .still) (.listed []) 1 ∧
          (u.ticks (.ofOracle (.listed []) .still) (.listed []) 1).loopedBy?
            (.ofOracle (.listed []) .still) (.listed []) = some 0 ∧
          (u.ticks (.ofOracle (.listed []) .still) (.listed []) 2).stack.map (·.id) = [0] ∧
          (u.ticks (.ofOracle (.listed []) .still) (.listed []) 2).state = .running := by
  refine ⟨underWay_reachable _, by decide +kernel, fun c hc => ?_⟩
  have hu : ∀ c ∈ [Control.stop true, .pause true], let u := c.apply (.listed []) nesting
      (∀ e ∈ u.news (u.ticks (.ofOracle (.listed []) .still) (.listed []) 2), ¬e.isControl) ∧
      ∀ j < 1, (u.ticks (.ofOracle (.listed []) .still) (.listed []) j).loopedBy?
        (.ofOracle (.listed []) .still) (.listed []) = none := by decide +kernel
  refine ⟨⟨(hu c hc).1, (hu c hc).2⟩, ?_⟩
  revert c
  decide +kernel

end Session

end Macros
