import Macros.Proofs.Scheduler.Course
import Macros.Proofs.Scheduler.LoopLine

/-!
An account of the frames. A journal tells which frames were put on and which were taken off; when one is
taken off its script is closed, and observers are told at once how it ended. What has been put on and not
been taken off is on the stack.
-/

namespace Macros

open Session

variable {σ τ : Type}

/-- A frame comes or goes, or observers are told how it ended. -/
def Event.isEntry : Event → Bool
  | pushed _ | popped _ _ | closed _ | finished _ _ => true
  | _ => false

theorem Event.not_entry_of_isRemark {e : Event} (h : e.isRemark) : e.isEntry = false := by
  cases e <;> first | rfl | cases h

theorem Event.not_entry_of_isNote {e : Event} (h : e.isNote) : e.isEntry = false := by
  cases e <;> first | rfl | cases h

theorem Event.not_loading_of_isNote {e : Event} (h : e.isNote) : e.isLoading = false := by
  cases e <;> first | rfl | cases h

namespace Journal

/-- The frames that were put on, the latest first. -/
def pushes (es : List Event) : List Nat :=
  es.filterMap fun
    | .pushed id => some id
    | _ => none

/-- The frames that were taken off and how, the latest first. -/
def pops (es : List Event) : List (Nat × FrameResult) :=
  es.filterMap fun
    | .popped id r => some (id, r)
    | _ => none

/-- The journal accounts for the frames that are on the stack; one that comes right after a script has been
loaded is marked as a script. -/
inductive Booked : List Event → List (Nat × Bool) → Prop
  | nil : Booked [] []
  | other {es : List Event} {fs : List (Nat × Bool)} (e : Event) (he : e.isEntry = false) :
    Booked es fs → Booked (e :: es) fs
  /-- The number is new. -/
  | pushed {es : List Event} {fs : List (Nat × Bool)} (id : Nat) (hid : ∀ j ∈ pushes es, j < id) :
    Booked es fs → Booked (.pushed id :: es) (fs ++ [(id, loading es)])
  /-- One frame goes, a script is closed, and observers are told how the frame ended. -/
  | popped {es : List Event} {fs : List (Nat × Bool)} (id : Nat) (script : Bool) (r : FrameResult)
    (name : Value) (level : Level) (text : Value) (hid : (id, script) ∈ fs) :
    Booked es fs → Booked (.finished name r :: .log level text ::
      ((if script then [.closed id] else []) ++ .popped id r :: es)) (fs.filter (·.1 != id))

variable {es ns : List Event} {fs : List (Nat × Bool)}

theorem Booked.others (h : Booked es fs) (hn : ∀ e ∈ ns, e.isEntry = false) : Booked (ns ++ es) fs := by
  induction ns with
  | nil => exact h
  | cons e ns ih =>
    obtain ⟨he, hn⟩ := List.forall_mem_cons.1 hn
    exact .other e he (ih hn)

theorem pushes_append (p q : List Event) : pushes (p ++ q) = pushes p ++ pushes q :=
  List.filterMap_append

theorem pushes_others (hn : ∀ e ∈ ns, e.isEntry = false) : pushes ns = [] :=
  List.filterMap_eq_nil_iff.2 fun e he => by
    have := hn e he
    cases e <;> first | rfl | cases this

theorem read_other {e : Event} (he : e.isEntry = false) (es : List Event) :
    pushes (e :: es) = pushes es ∧ pops (e :: es) = pops es ∧ finishes (e :: es) = finishes es := by
  cases e <;> first | exact ⟨rfl, rfl, rfl⟩ | cases he

theorem read_popped (id : Nat) (script : Bool) (r : FrameResult) (name : Value) (level : Level)
    (text : Value) (es : List Event) :
    let ns := Event.finished name r :: .log level text ::
      ((if script then [Event.closed id] else []) ++ .popped id r :: es)
    pushes ns = pushes es ∧ pops ns = (id, r) :: pops es ∧ finishes ns = (name, r) :: finishes es := by
  cases script <;> exact ⟨rfl, rfl, rfl⟩

/-- The frames on the stack are numbered in the order in which they came. -/
theorem Booked.numbered (h : Booked es fs) :
    fs.Pairwise (·.1 < ·.1) ∧ ∀ p ∈ fs, p.1 ∈ pushes es := by
  induction h with
  | nil => simp
  | other e he _ ih => rwa [(read_other he _).1]
  | @pushed es fs id hid _ ih =>
    refine ⟨List.pairwise_append.2 ⟨ih.1, List.pairwise_singleton _ _, fun p hp q hq => ?_⟩, ?_⟩
    · rw [List.mem_singleton.1 hq]
      exact hid _ (ih.2 p hp)
    · refine List.forall_mem_append.2 ⟨fun p hp => ?_, by simp [pushes]⟩
      exact List.mem_cons_of_mem _ (ih.2 p hp)
  | popped id script r name level text _ _ ih =>
    rw [(read_popped id script r name level text _).1]
    exact ⟨ih.1.filter _, fun p hp => ih.2 p (List.mem_of_mem_filter hp)⟩

/-- What a journal says about the frames adds up. -/
structure Balanced (es : List Event) (ids : List Nat) : Prop where
  /-- No frame is put on twice. -/
  once : (pushes es).Nodup
  /-- Every frame that was put on has been taken off once, or is there. -/
  balance : (pushes es).Perm ((pops es).map (·.1) ++ ids)
  /-- What is told of each frame that is taken off is how it was taken off. -/
  told : (finishes es).map (·.2) = (pops es).map (·.2)

theorem Balanced.count {ids : List Nat} (h : Balanced es ids) :
    (pushes es).length = (finishes es).length + ids.length := by
  have h1 := h.balance.length_eq
  have h2 := congrArg List.length h.told
  simp only [List.length_append, List.length_map] at h1 h2
  rw [h1, h2]

/-- A frame is told from the others by its number. -/
theorem perm_filter {id : Nat} {script : Bool} (hn : fs.Pairwise (·.1 < ·.1))
    (hid : (id, script) ∈ fs) : (fs.map (·.1)).Perm (id :: (fs.filter (·.1 != id)).map (·.1)) := by
  induction fs with
  | nil => cases hid
  | cons p fs ih =>
    obtain ⟨hp, hn⟩ := List.pairwise_cons.1 hn
    rcases List.mem_cons.1 hid with rfl | hid
    · have hfs : fs.filter (·.1 != id) = fs :=
        List.filter_eq_self.2 fun q hq => by simpa using Nat.ne_of_gt (hp q hq)
      simp [hfs]
    · have hne : p.1 ≠ id := Nat.ne_of_lt (hp _ hid)
      rw [List.filter_cons, if_pos (by simpa using hne), List.map_cons, List.map_cons]
      exact ((ih hn hid).cons p.1).trans (.swap id p.1 _)

theorem Booked.balanced (h : Booked es fs) : Balanced es (fs.map (·.1)) := by
  induction h with
  | nil => exact ⟨List.nodup_nil, .nil, rfl⟩
  | @other es fs e he _ ih =>
    obtain ⟨h1, h2, h3⟩ := read_other he es
    exact ⟨h1 ▸ ih.once, by rw [h1, h2]; exact ih.balance, by rw [h2, h3]; exact ih.told⟩
  | @pushed es fs id hid _ ih =>
    refine ⟨List.nodup_cons.2 ⟨fun hm => absurd (hid id hm) (Nat.lt_irrefl _), ih.once⟩, ?_, ih.told⟩
    show (id :: pushes es).Perm ((pops es).map (·.1) ++ (fs ++ [(id, loading es)]).map (·.1))
    rw [List.map_append, ← List.append_assoc]
    exact (ih.balance.cons id).trans (List.perm_append_singleton id _).symm
  | @popped es fs id script r name level text hid h ih =>
    obtain ⟨h1, h2, h3⟩ := read_popped id script r name level text es
    refine ⟨h1 ▸ ih.once, ?_, ?_⟩
    · rw [h1, h2, List.map_cons, List.cons_append]
      refine ih.balance.trans (((perm_filter h.numbered.1 hid).append_left _).trans ?_)
      exact List.perm_middle
    · rw [h2, h3, List.map_cons, List.map_cons, ih.told]

end Journal

namespace Session

open Journal

variable {o : Oracle σ τ} {b : Bridge τ} {s t : Session σ τ} {f : Frame τ}

/-- The number of a frame, and whether it is a script. -/
def kind (f : Frame τ) : Nat × Bool := (f.id, f.isScript)

/-- The journal accounts for the stack. -/
structure Booked (s : Session σ τ) : Prop where
  entries : Journal.Booked s.journal (s.stack.map kind)
  /-- A script that has been loaded is put on at once, or it is told why not. -/
  rests : loading s.journal = false
  below : ∀ id ∈ pushes s.journal, id < s.nextId

theorem Booked.numbered (h : s.Booked) : s.stack.Pairwise (·.id < ·.id) :=
  (List.pairwise_map (f := kind) (R := (·.1 < ·.1))).1 h.entries.numbered.1

theorem Booked.same (h : s.Booked) (hj : t.journal = s.journal) (hn : t.nextId = s.nextId)
    (hs : t.stack.map kind = s.stack.map kind) : t.Booked :=
  ⟨by rw [hj, hs]; exact h.entries, by rw [hj]; exact h.rests, by rw [hj, hn]; exact h.below⟩

/-- Nothing is reported that is an entry. -/
theorem Booked.others {ns : List Event} (h : s.Booked) (hj : t.journal = ns ++ s.journal)
    (he : ∀ e ∈ ns, e.isEntry = false) (hl : loading (ns ++ s.journal) = false)
    (hn : t.nextId = s.nextId) (hs : t.stack = s.stack) : t.Booked := by
  refine ⟨?_, hj ▸ hl, ?_⟩
  · rw [hj, hs]
    exact h.entries.others he
  · rw [hj, hn, pushes_append, pushes_others he]
    exact h.below

theorem loading_append {ns es : List Event} (h : loading ns = false) (h' : loading es = false) :
    loading (ns ++ es) = false := by
  cases ns with
  | nil => exact h'
  | cons e ns => exact h

theorem Booked.remarks {ns : List Event} (h : s.Booked) (hn : ∀ e ∈ ns, e.isRemark)
    (hl : loading ns = false) : Booked { s with journal := ns ++ s.journal } :=
  h.others rfl (fun e he => Event.not_entry_of_isRemark (hn e he)) (loading_append hl h.rests) rfl rfl

theorem Booked.setState (h : s.Booked) (x : RunState) : (s.setState x).Booked := by
  have hx : ∀ e ∈ s.stateNews x, e = .state x := fun _ => stateNews_cases
  rw [setState_eq]
  refine h.others rfl (fun e he => by rw [hx e he]; rfl) ?_ rfl rfl
  refine loading_append ?_ h.rests
  cases hs : s.stateNews x with
  | nil => rfl
  | cons e es => rw [hx e (by simp [hs])]; rfl

/-- The kinds of the frames without one. -/
theorem without_kinds (s : Session σ τ) (id : Nat) :
    (s.without id).map kind = (s.stack.map kind).filter (·.1 != id) := by
  rw [without, List.filter_map]
  rfl

theorem Booked.pop (h : s.Booked) (hf : f ∈ s.stack) (r : FrameResult) : (s.pop f r).Booked := by
  have hk : (f.id, f.isScript) ∈ s.stack.map kind := List.mem_map_of_mem hf
  have h1 := Journal.Booked.popped f.id f.isScript r (s.nameOf f) r.level
    (.text ("Macro " ++ (s.nameOf f).quoted ++ " " ++ r.label)) hk h.entries
  -- the stack as it is now is shown, and the run state if it was the last frame
  let ns : List Event := .status ((s.without f.id).map fun g => (s.nameOf g, g.position)) ::
    (if (s.without f.id).isEmpty ∧ RunState.idle ≠ s.state then [Event.state .idle] else [])
  have hns : ∀ e ∈ ns, e.isEntry = false :=
    List.forall_mem_cons.2 ⟨rfl, fun e he => by split at he <;> simp_all [Event.isEntry]⟩
  have hj : (s.pop f r).journal = ns ++ (Event.finished (s.nameOf f) r :: Event.log r.level
      (.text ("Macro " ++ (s.nameOf f).quoted ++ " " ++ r.label)) ::
      ((if f.isScript then [Event.closed f.id] else []) ++ Event.popped f.id r :: s.journal)) := by
    rw [pop_eq, popNews]
    simp [ns]
  refine ⟨?_, by rw [hj]; rfl, fun id hid => ?_⟩
  · rw [hj, pop_eq, without_kinds]
    exact h1.others hns
  · rw [hj, pushes_append, pushes_others hns, (read_popped _ _ _ _ _ _ _).1] at hid
    rw [pop_eq]
    exact h.below id hid

/-- A frame is put on that is a script just when one has been loaded. -/
theorem Booked.pushed (he : Journal.Booked s.journal (s.stack.map kind))
    (hid : ∀ id ∈ pushes s.journal, id < s.nextId) (node : NodeId) (text : String) {work : Work τ}
    (hw : (s.newFrame node text work).isScript = loading s.journal) :
    (s.push node text work).Booked := by
  let f := s.newFrame node text work
  let ns : List Event := [Event.status ((s.stack ++ [f]).map fun g => (s.nameOf g, g.position)),
    Event.log .info (.text ("Running macro " ++ (s.nameOf f).quoted))]
    ++ (if s.state = .notReady || s.state = .running then [] else [Event.state .running])
  have hns : ∀ e ∈ ns, e.isEntry = false := fun e hm => by
    rcases List.mem_append.1 hm with hm | hm
    · simp only [List.mem_cons, List.not_mem_nil, or_false] at hm
      rcases hm with rfl | rfl <;> rfl
    · split at hm
      · cases hm
      · rw [List.mem_singleton.1 hm]; rfl
  have hj : (s.push node text work).journal = ns ++ Event.pushed s.nextId :: s.journal := by
    rw [push_eq]
    exact List.append_assoc ns [Event.pushed s.nextId] s.journal
  have h1 := (he.pushed s.nextId hid).others hns
  rw [← hw] at h1
  refine ⟨?_, by rw [push_eq]; rfl, fun id hm => ?_⟩
  · rw [hj, push_eq, List.map_append]
    exact h1
  · rw [hj, pushes_append, pushes_others hns] at hm
    rw [push_eq]
    rcases List.mem_cons.1 hm with rfl | hm
    · exact Nat.lt_succ_self _
    · exact Nat.lt_succ_of_lt (hid id hm)

theorem Booked.launch (h : s.Booked) {es : List Event} (hes : ∀ e ∈ es, e.isRemark) (node : NodeId)
    (text : String) {work : Work τ} (hw : work.Begins es) :
    (Session.push { s with journal := es ++ s.journal } node text work).Booked := by
  have hentry : ∀ e ∈ es, e.isEntry = false := fun e he => Event.not_entry_of_isRemark (hes e he)
  refine Booked.pushed (h.entries.others hentry) ?_ node text ?_
  · rw [pushes_append, pushes_others hentry]
    exact h.below
  · cases hw with
    | native is => exact h.rests.symm
    | script => rfl

/-- All frames are taken off, the innermost first. -/
theorem Booked.popAll {fs : List (Frame τ)} (h : s.Booked) (hs : s.stack = fs.reverse)
    (r : FrameResult) : (fs.foldl (fun s f => s.pop f r) s).Booked := by
  induction fs generalizing s with
  | nil => exact h
  | cons f fs ih =>
    rw [List.reverse_cons] at hs
    have hn := h.numbered
    rw [hs, List.pairwise_append] at hn
    refine ih (h.pop (hs ▸ by simp) r) ?_
    show (s.pop f r).stack = fs.reverse
    rw [pop_eq]
    exact without_last hs fun g hg => hn.2.2 g hg f (by simp)

theorem Booked.modifyScript (h : s.Booked) (id : Nat) (m : ScriptWork τ → ScriptWork τ) :
    (s.modifyScript id m).Booked :=
  h.same rfl rfl (modify_map s id fun f => by
    cases hw : f.work <;> simp [kind, Frame.isScript, hw])

theorem booked_upholds : Upholds fun s t : Session σ τ => s.Booked → t.Booked where
  refl _ := id
  trans h h' := fun hs => h' (h hs)
  client _ _ h := h.same rfl rfl rfl
  note s e he h := h.others rfl (List.forall_mem_singleton.2 (Event.not_entry_of_isNote he))
    (loading_append (by simpa [loading] using Event.not_loading_of_isNote he) h.rests) rfl rfl
  told _ _ hes hl h := h.remarks hes hl
  launch _ _ node text _ hes hw h := h.launch hes node text hw
  state _ x h := h.setState x
  flags _ _ _ _ h := h.same rfl rfl rfl
  pop r hf h := h.pop hf r
  halt s h := by
    have h1 : Booked { s with stopEvent := true } := h.same rfl rfl rfl
    exact h1.popAll (List.reverse_reverse _).symm .stopped
  mark s id _ _ h := h.same rfl rfl (modify_map s id fun _ => rfl)
  native s id m h := h.same rfl rfl (modify_map s id fun f => by
    cases hw : f.work <;> simp [kind, Frame.isScript, hw])
  script _ id m _ h := h.modifyScript id m

theorem booked_scriptStep (hs : s.Sound) (f : Frame τ) (w : ScriptWork τ) (h : s.Booked) :
    (s.scriptStep (.ofOracle b o) b f w).2.Booked := by
  unfold scriptStep
  split
  · exact h.modifyScript _ _
  · exact h.modifyScript _ _
  · next run a _ =>
    dsimp only
    let v := if w.run.started then w.pendingResult else .null
    have h1 : (s.record (.sent f.id v)).Booked := booked_upholds.note s (.sent f.id v) rfl h
    have hs1 : ((s.record (.sent f.id v)).modifyScript f.id fun w => { w with run := run }).Sound :=
      Changes.sound (script_change (o := o) _ f.id _) (hs.of_eq rfl rfl rfl rfl)
    exact ((booked_upholds.admits b o).hostCalls a.hostCalls hs1 (h1.modifyScript f.id _)).modifyScript _ _

theorem booked_governs (b : Bridge τ) (o : Oracle σ τ) :
    Governs b o fun s t : Session σ τ => s.Booked → t.Booked where
  toUpholds := booked_upholds
  advanceScript {s f w} hs hf _ h := by
    cases hp : w.pendingLine with
    | some line => exact booked_upholds.again hs hp f h
    | none =>
      have ht := Changes.sound (scriptStep_spec (o := o) (b := b) hs hf w).1 hs
      exact booked_upholds.onward hp ht (booked_scriptStep hs f w h)
  close _ h := h.same rfl rfl rfl
  edit _ _ _ h := h.same rfl rfl rfl

/-- The journal of every session that comes about accounts for its stack. -/
theorem Reachable.booked (h : s.Reachable (.ofOracle b o) b) : s.Booked :=
  (booked_governs b o).reachable (I := Booked) (fun _ _ _ _ => ⟨.nil, rfl, by simp [Session.idle, pushes]⟩) h

end Session

end Macros
