import Macros.Proofs.Scheduler.Planned
import Macros.Proofs.Scheduler.Trace

/-!
A stop is final as long as it is noticed. There are two places where it is not: a line that a script
yields after a stop came in while the script was resumed, and a macro that a line starts after a
stop came in while the line was run.
-/

namespace Macros

open Session

variable {σ τ : Type}

namespace Journal

/-- From the return of a stop until the user starts a macro nothing is in progress, and only lines
of frames that are in progress are handed over. -/
structure StopsFinal (es : List Event) : Prop where
  rest : ∀ p, p <:+ es → stopped p → frames p = [] ∧ state p = .idle
  handed : ∀ id i p, .handed id i :: p <:+ es → id ∈ frames p

/-- No line is handed over, and no macro started by a line, past a stop that came in while the
script was resumed, or while the line was run. -/
structure StopsNoticed (es : List Event) : Prop where
  handed : ∀ id i p, .handed id i :: p <:+ es → ¬StopSinceResume id p
  pushed : ∀ id p, .pushed id :: p <:+ es → ¬StopSinceHanded p

theorem StopsNoticed.of_suffix {p es : List Event} (h : StopsNoticed es) (hp : p <:+ es) :
    StopsNoticed p :=
  ⟨fun id i q hq => h.handed id i q (hq.trans hp), fun id q hq => h.pushed id q (hq.trans hp)⟩

theorem StopsFinal.nil : StopsFinal [] :=
  ⟨fun p hp hs => by rw [List.suffix_nil.1 hp] at hs ⊢; exact ⟨rfl, rfl⟩,
    fun id i p hp => absurd (List.suffix_nil.1 hp) (by simp)⟩

/-- Does an event hand over nothing, or a line of a frame that is in progress? -/
def handsOwn (es : List Event) : Event → Bool
  | .handed id _ => (frames es).contains id
  | _ => true

theorem stopsFinal_cons (e : Event) (es : List Event) :
    StopsFinal (e :: es) ↔ StopsFinal es ∧
      (stopped (e :: es) → frames (e :: es) = [] ∧ state (e :: es) = .idle) ∧ handsOwn es e := by
  constructor
  · intro h
    refine ⟨⟨fun p hp => h.rest p (hp.trans (List.suffix_cons e es)),
      fun id i p hp => h.handed id i p (hp.trans (List.suffix_cons e es))⟩,
      h.rest _ (List.suffix_refl _), ?_⟩
    cases e with
    | handed id i => simpa [handsOwn] using h.handed id i es (List.suffix_refl _)
    | _ => rfl
  · rintro ⟨h, hr, hh⟩
    constructor
    · intro p hp hs
      rcases List.suffix_cons_iff.1 hp with rfl | hp
      · exact hr hs
      · exact h.rest p hp hs
    · intro id i p hp
      rcases List.suffix_cons_iff.1 hp with hp | hp
      · obtain ⟨rfl, rfl⟩ := List.cons.inj hp
        simpa [handsOwn] using hh
      · exact h.handed id i p hp

instance : (es : List Event) → Decidable (StopsFinal es)
  | [] => .isTrue .nil
  | e :: es =>
    have : Decidable (StopsFinal es) := instDecidableStopsFinal es
    decidable_of_iff _ (stopsFinal_cons e es).symm

/-- While the user's last word is no stop, anything may be reported but control calls and lines that
change hands. -/
theorem StopsFinal.append {es : List Event} (h : StopsFinal es) (hs : stopped es = false)
    {news : List Event} (hn : ∀ e ∈ news, ¬e.isControl ∧ ¬e.isExchange) :
    StopsFinal (news ++ es) := by
  induction news with
  | nil => exact h
  | cons e news ih =>
    have hq : stopped (e :: (news ++ es)) = false := by
      rw [← List.cons_append, stopped_append_of_quiet (fun e he => (hn e he).1), hs]
    refine (stopsFinal_cons e _).2
      ⟨ih fun e he => hn e (List.mem_cons_of_mem _ he), by simp [hq], ?_⟩
    cases e with
    | handed id i => exact absurd rfl (hn (.handed id i) (by simp)).2
    | _ => rfl

/-! Where a stop is noticed, it is final. -/

/-- The line that was handed over last. -/
theorem last_handed {es : List Event} (h : ∃ id i, .handed id i ∈ es) :
    ∃ q id i p, es = q ++ .handed id i :: p ∧ ∀ j l, .handed j l ∉ q := by
  induction es with
  | nil => simp at h
  | cons e es ih =>
    by_cases he : ∃ id i, e = .handed id i
    · obtain ⟨id, i, rfl⟩ := he
      exact ⟨[], id, i, es, rfl, by simp⟩
    · obtain ⟨id, i, hm⟩ := h
      rcases List.mem_cons.1 hm with hm | hm
      · exact absurd ⟨id, i, hm.symm⟩ he
      · obtain ⟨q, id', i', p, rfl, hq⟩ := ih ⟨id, i, hm⟩
        refine ⟨e :: q, id', i', p, rfl, fun j l hm => ?_⟩
        rcases List.mem_cons.1 hm with hm | hm
        · exact he ⟨j, l, hm.symm⟩
        · exact hq j l hm

/-- The line during which a stop came in. -/
theorem stopSinceHanded {es : List Event} (h : StopsFinal es) (hs : stopped es)
    (hh : ∃ id i, .handed id i ∈ es) : StopSinceHanded es := by
  obtain ⟨q, id, i, p, rfl, hq⟩ := last_handed hh
  refine ⟨q, id, i, p, rfl, hq, ?_⟩
  rcases stopped_of_append hs with hs | hs
  · exact hs
  · -- had the stop come in earlier, the line would not have been handed over
    have hp : stopped p := by simpa [stopped, Event.stops, Event.starts] using hs
    have h1 := h.handed id i p (List.suffix_append _ _)
    rw [(h.rest p ((List.suffix_cons _ p).trans (List.suffix_append _ _)) hp).1] at h1
    simp at h1

end Journal

namespace Session

variable {o : Oracle σ τ} {s s' : Session σ τ}

open Journal

/-- The session is where its journal says, and stops have been final so far. -/
structure Settled (s : Session σ τ) : Prop where
  sound : s.Sound
  traced : s.Traced
  final : StopsFinal s.journal

theorem Settled.stopped (h : s.Settled) (hs : Journal.stopped s.journal) :
    s.stack = [] ∧ s.state = .idle := by
  obtain ⟨h1, h2⟩ := h.final.rest _ (List.suffix_refl _) hs
  rw [h.traced.frames, List.map_eq_nil_iff] at h1
  rw [h.traced.state] at h2
  exact ⟨h1, h2⟩

theorem Settled.going (h : s.Settled) (hs : s.stack ≠ []) : Journal.stopped s.journal = false := by
  by_contra hne
  exact hs (h.stopped (by simpa using hne)).1

theorem Settled.setState (h : s.Settled) {x : RunState}
    (hx : Journal.stopped s.journal → x = .idle) : StopsFinal (s.setState x).journal := by
  rw [setState_eq]
  by_cases hs : Journal.stopped s.journal
  · rw [stateNews, if_pos (by rw [hx hs, (h.stopped hs).2])]
    exact h.final
  · exact h.final.append (by simpa using hs) (stateNews_quiet s x)

theorem Settled.record (h : s.Settled) {e : Event} (ht : (s.record e).Traced)
    (hr : Journal.stopped (e :: s.journal) → s.stack = [] ∧ s.state = .idle)
    (hh : handsOwn s.journal e) : StopsFinal (s.record e).journal := by
  refine (stopsFinal_cons e _).2 ⟨h.final, fun hs => ?_, hh⟩
  obtain ⟨h1, h2⟩ := hr hs
  refine ⟨?_, ?_⟩
  · rw [show frames (e :: s.journal) = s.stack.map (·.id) from ht.frames, h1]
    rfl
  · rw [show Journal.state (e :: s.journal) = s.state from ht.state, h2]

/-- A change keeps stops final if they are noticed. -/
theorem Change.final (hc : Change o s s') (h : s.Settled) (hn : StopsNoticed s'.journal) :
    StopsFinal s'.journal := by
  have ht := hc.traced h.traced
  cases hc with
  | client | mark | goTo | passLoop | script | foresee | halt | clear | close | edit =>
    exact h.final
  | remark e he =>
    refine h.record ht (fun hs => h.stopped ?_) ?_
    · have hq : ∀ e' ∈ [e], ¬e'.isControl := by simpa using (Event.quiet_of_isRemark he).1
      rw [← stopped_append_of_quiet hq]
      exact hs
    · cases e <;> simp [Event.isRemark] at he <;> rfl
  | calling c =>
    refine h.record ht (fun hs => h.stopped ?_) rfl
    simp only [Journal.stopped, Bool.or_eq_true, Bool.and_eq_true] at hs
    rcases hs with hs | hs
    · simp [Event.stops] at hs
    · exact hs.2
  | called c b hb =>
    refine h.record ht (fun hs => ?_) rfl
    simp only [Journal.stopped, Bool.or_eq_true, Bool.and_eq_true] at hs
    rcases hs with hs | hs
    · obtain ⟨p, hp⟩ := Event.eq_called_of_stops hs
      have hc : c = .stop false := (Event.called.inj hp).1
      exact ⟨hb hc, h.sound.idle_iff.2 (hb hc)⟩
    · exact h.stopped hs.2
  | hand id i hi =>
    refine h.record ht (fun hs => h.stopped hs) ?_
    rcases hi with hi | hi
    · rw [handsOwn, h.traced.frames, List.contains_iff_mem, List.mem_map]
      exact (owns_iff s id).1 hi
    · exact absurd hi (hn.handed id i _ (List.suffix_refl _))
  | send id v => exact h.record ht (fun hs => h.stopped hs) rfl
  | push node text work hw hd hj =>
    rw [push_eq] at hn ⊢
    by_cases hs : Journal.stopped s.journal
    · have hh := stopSinceHanded h.final hs (hj.resolve_left (by simp [hs]))
      refine absurd hh (hn.pushed s.nextId _ ?_)
      dsimp only
      rw [pushNews, List.append_assoc]
      exact List.suffix_append _ _
    · exact h.final.append (by simpa using hs) (pushNews_quiet s _)
  | pop f r hf =>
    rw [pop_eq]
    exact h.final.append (h.going fun he => by simp [he] at hf) (popNews_quiet s f r)
  | pause hr => exact h.setState fun hs => by simp [(h.stopped hs).2] at hr
  | resume hr => exact h.setState fun hs => by simp [(h.stopped hs).2] at hr
  | await hr hs =>
    rw [setState_eq]
    exact h.final.append (h.going hs) (stateNews_quiet _ _)
  | leave => exact h.setState fun hs => by simp [(h.stopped hs).1]
  | rest => exact h.setState fun _ => rfl

theorem Changes.final (hc : Changes o s s') (h : s.Settled) (hn : StopsNoticed s'.journal) :
    StopsFinal s'.journal := by
  induction hc with
  | refl => exact h.final
  | tail ht hc ih =>
    have h1 := ih (hn.of_suffix hc.journal_suffix)
    exact hc.final ⟨Changes.sound ht h.sound, Changes.traced ht h.traced, h1⟩ hn

/-! Where a stop is not noticed, it is not final. -/

/-- When a stop returns there are no frames; and numbers of frames are new, so nothing was ever sent
into a frame before it was put on. -/
structure Recorded (s : Session σ τ) : Prop where
  stops : ∀ b p, .called (.stop false) b :: p <:+ s.journal → frames p = []
  sent : ∀ id v, .sent id v ∈ s.journal → id < s.nextId
  pushed : ∀ id p, .pushed id :: p <:+ s.journal → ∀ v, .sent id v ∉ p

theorem Recorded.idle (tree : Tree) (settings : Settings) (registry : Registry) (x : σ) :
    (Session.idle tree settings registry x : Session σ τ).Recorded :=
  ⟨fun b p hp => absurd (List.suffix_nil.1 hp) (by simp), by simp [Session.idle],
    fun id p hp => absurd (List.suffix_nil.1 hp) (by simp)⟩

/-- Reports that hold no control calls, no lines and no new frames. -/
theorem Recorded.append (h : s.Recorded) (news : List Event) (hj : s'.journal = news ++ s.journal)
    (hn : s.nextId ≤ s'.nextId) (hq : ∀ e ∈ news, ¬e.isControl ∧ ¬e.isExchange)
    (hp : ∀ id, .pushed id ∈ news → id = s.nextId) : s'.Recorded := by
  constructor
  · intro b p hs
    rw [hj] at hs
    exact h.stops b p (suffix_of_append hs fun hm => absurd rfl (hq _ hm).1)
  · intro id v hm
    rw [hj] at hm
    rcases List.mem_append.1 hm with hm | hm
    · exact absurd rfl (hq _ hm).2
    · exact Nat.lt_of_lt_of_le (h.sent id v hm) hn
  · intro id p hs v hm
    rw [hj] at hs
    by_cases hin : .pushed id ∈ news
    · have hv : Event.sent id v ∈ s.journal := by
        have := hs.subset (List.mem_cons_of_mem _ hm)
        rcases List.mem_append.1 this with hv | hv
        · exact absurd rfl (hq _ hv).2
        · exact hv
      exact absurd (h.sent id v hv) (by rw [hp id hin]; exact Nat.lt_irrefl _)
    · exact h.pushed id p (suffix_of_append hs hin) v hm

theorem Recorded.record (h : s.Recorded) {e : Event}
    (hc : ∀ b, e = .called (.stop false) b → frames s.journal = [])
    (hs : ∀ id v, e = .sent id v → id < s.nextId) (hp : ∀ id, e ≠ .pushed id) :
    (s.record e).Recorded := by
  constructor
  · intro b p hm
    rcases List.suffix_cons_iff.1 hm with hm | hm
    · obtain ⟨he, rfl⟩ := List.cons.inj hm
      exact hc b he.symm
    · exact h.stops b p hm
  · intro id v hm
    rcases List.mem_cons.1 hm with hm | hm
    · exact hs id v hm.symm
    · exact h.sent id v hm
  · intro id p hm
    rcases List.suffix_cons_iff.1 hm with hm | hm
    · exact absurd (List.cons.inj hm).1.symm (hp id)
    · exact h.pushed id p hm

theorem Change.recorded (hc : Change o s s') (hs : s.Sound) (ht : s.Traced) (h : s.Recorded) :
    s'.Recorded := by
  cases hc with
  | client | mark | goTo | passLoop | script | foresee | halt | clear | close | edit =>
    exact ⟨h.stops, h.sent, h.pushed⟩
  | remark e he =>
    refine h.append [e] rfl (Nat.le_refl _) (by simpa using Event.quiet_of_isRemark he) ?_
    intro id hm
    rw [← List.mem_singleton.1 hm] at he
    simp [Event.isRemark] at he
  | calling c => exact h.record (by simp) (by simp) (by simp)
  | called c b hb =>
    refine h.record ?_ (by simp) (by simp)
    intro b' he
    rw [ht.frames, hb (Event.called.inj he).1]
    rfl
  | hand id i => exact h.record (by simp) (by simp) (by simp)
  | send id v hi =>
    refine h.record (by simp) ?_ (by simp)
    intro id' v' he
    obtain ⟨rfl, rfl⟩ := Event.sent.inj he
    exact hs.owns_lt hi
  | push node text work =>
    rw [push_eq]
    refine h.append (s.pushNews (s.newFrame node text work)) rfl (Nat.le_succ _)
      (pushNews_quiet s _) ?_
    intro id hm
    obtain ⟨_, he⟩ | ⟨_, _, he⟩ | he | he := pushNews_cases hm
    · simp at he
    · simp at he
    · simp at he
    · exact Event.pushed.inj he
  | pop f r =>
    rw [pop_eq]
    refine h.append (s.popNews f r) rfl (Nat.le_refl _) (popNews_quiet s f r) ?_
    intro id hm
    obtain ⟨_, he⟩ | he | he | ⟨_, _, he⟩ | he | he := popNews_cases hm <;> simp at he
  | pause | resume | leave | rest | await =>
    rw [setState_eq]
    refine h.append (stateNews _ _) rfl (Nat.le_refl _) (stateNews_quiet _ _) ?_
    intro id hm
    simpa using stateNews_cases hm

theorem Changes.recorded (hc : Changes o s s') (hs : s.Sound) (ht : s.Traced) (h : s.Recorded) :
    s'.Recorded := by
  induction hc with
  | refl => exact h
  | tail hc' hc ih => exact hc.recorded (Changes.sound hc' hs) (Changes.traced hc' ht) ih

/-- A frame that a stop took off while its script was resumed does not come back. -/
theorem Recorded.gone (h : s.Recorded) {id : Nat} {p : List Event} (hp : p <:+ s.journal)
    (hs : StopSinceResume id p) : id ∉ frames p := by
  obtain ⟨q, v, p, b, rfl, -, hb⟩ := hs
  obtain ⟨q₁, q₂, rfl⟩ := List.append_of_mem hb
  intro hm
  simp only [List.append_assoc, List.cons_append] at hm hp
  have h1 : frames (q₂ ++ .sent id v :: p) = [] := h.stops b _ ((List.suffix_append _ _).trans hp)
  obtain ⟨q', p', rfl⟩ := pushed_since hm (by simp [frames, h1])
  refine h.pushed id (p' ++ .called (.stop false) b :: (q₂ ++ .sent id v :: p)) ?_ v (by simp)
  simp only [List.append_assoc, List.cons_append] at hp
  exact (List.suffix_append _ _).trans hp

theorem Recorded.noticed (h : s.Recorded) (hf : StopsFinal s.journal) :
    StopsNoticed s.journal := by
  constructor
  · intro id i p hp hs
    exact h.gone ((List.suffix_cons _ _).trans hp) hs (hf.handed id i p hp)
  · rintro id p hp ⟨q, j, l, p', rfl, -, hq⟩
    have hs : Journal.stopped (.pushed id :: (q ++ .handed j l :: p')) := by
      simpa [Journal.stopped, Event.stops, Event.starts] using stopped_append hq _
    have hr := (hf.rest _ hp hs).1
    simp [frames] at hr

/-- In every session that comes about the journal tells the frames and the run state; and a stop is
final, at whatever moment it comes in, exactly if it is noticed. -/
theorem stops_final_iff_noticed (b : Bridge τ) (o : Oracle σ τ) {s : Session σ τ}
    (h : s.Reachable (.ofOracle b o) b) :
    frames s.journal = s.stack.map (·.id) ∧ Journal.state s.journal = s.state ∧
      (StopsFinal s.journal ↔ StopsNoticed s.journal) := by
  obtain ⟨tree, settings, registry, client, hc⟩ := h.changes
  have hs := Sound.idle (τ := τ) tree settings registry client
  have ht := Traced.idle (τ := τ) tree settings registry client
  have h1 := hc.traced ht
  refine ⟨h1.frames, h1.state, fun hf => ?_, fun hn => ?_⟩
  · exact (hc.recorded hs ht (.idle ..)).noticed hf
  · exact hc.final ⟨hs, ht, .nil⟩ hn

/-- A stop that comes in while a key is sent is noticed, and final. -/
theorem stop_while_sending :
    let s := (Session.waiting [.native "A" "/send X\n/send Y"]
        [(true, []), (true, [.stop false])]).operate (.ofOracle (.listed []) .planned) (.listed [])
      [.control (.runByName "A" none), .tick, .tick]
    frames s.journal = s.stack.map (·.id) ∧ Journal.stopped s.journal ∧ StopsFinal s.journal ∧
      StopsNoticed s.journal := by
  intro s
  have h := stops_final_iff_noticed (.listed []) .planned (s := s) (.operate (.idle ..) _)
  have hf : StopsFinal s.journal := by decide +kernel
  exact ⟨h.1, by decide +kernel, hf, h.2.2.1 hf⟩

/-- The first script goes on to send a key after it has been stopped while it was resumed; the second
macro starts another one after it has been stopped while its condition was looked up. -/
theorem stop_overlooked :
    ¬StopsFinal ((Session.waiting [.script "S"] [(true, []), (true, [.stop false])]).operate
        (.ofOracle (.listed [(1, "/send A"), (0, "/send B")]) .planned)
        (.listed [(1, "/send A"), (0, "/send B")])
        [.control (.runByName "S" none), .tick, .tick]).journal ∧
      ¬StopsFinal ((Session.waiting
          [.native "A" "/runmacro B <condition.!poor>", .native "B" "/send X"]
          [(true, []), (true, [.stop false])]).operate (.ofOracle (.listed []) .planned) (.listed [])
        [.control (.runByName "A" none), .tick]).journal := by
  constructor
  · decide +kernel
  · decide +kernel

end Session

end Macros
