import IncludeSweep.Proofs.Accounting
import IncludeSweep.Proofs.Replay

set_option autoImplicit false

/-! # What a run leaves of a file

One file through the tiers, while builds may edit the disk as they like. The draft knows what was
last written to its file; what is deleted there are the lines reported as committed; and lines are
left commented out there exactly if the file is reported as left behind. -/

namespace IncludeSweep

open Text Draft

variable {σ : Type} {g : Origin} {j j' : Journal}

theorem mem_of_nth? {α : Type} {xs : List α} {n : Nat} {x : α} (h : nth? xs n = some x) :
    x ∈ xs := by
  obtain ⟨i, _, hi⟩ := nth?_eq_some.1 h
  exact List.mem_of_getElem? hi

structure Origin.Touched (g : Origin) (states : List LineState) : Prop where
  fits : g.Fits states
  live : ∀ n state, nth? states n = some state → state ≠ .intact →
    ∃ line, nth? g.lines n = some line ∧ Directive.live (stripTerminator line) = true

theorem Origin.Touched.mark {states : List LineState} (h : g.Touched states) {ns : List Nat}
    (hns : ∀ n ∈ ns, n ∈ g.entry.lines) : g.Touched (mark g.lines ns states).1 := by
  refine ⟨h.fits.mark hns, fun n state hn hne => ?_⟩
  rw [nth?_mark] at hn
  split at hn
  · rename_i hm
    exact (removable_iff.1 (mem_mark.1 hm).2).2
  · exact h.live n state hn hne

theorem Origin.Touched.settle {states : List LineState} (h : g.Touched states) (r : LineState) :
    g.Touched (settle r states) := by
  refine ⟨h.fits.settle r, fun n state hn hne => ?_⟩
  rw [nth?_settle] at hn
  obtain ⟨state', hn', rfl⟩ := Option.map_eq_some_iff.1 hn
  refine h.live n state' hn' ?_
  rintro rfl
  simp at hne

theorem Origin.touched_allIntact (g : Origin) : g.Touched (allIntact g.lines) := by
  have hnone : ∀ n state, nth? (allIntact g.lines) n = some state → state = .intact := by
    intro n state hn
    rw [allIntact, nth?_map] at hn
    obtain ⟨_, _, rfl⟩ := Option.map_eq_some_iff.1 hn
    rfl
  exact ⟨⟨by simp [allIntact], fun n state hn hne => absurd (hnone n state hn) hne⟩,
    fun n state hn hne => absurd (hnone n state hn) hne⟩

/-- The draft knows what the journal has last written to its file. -/
structure Draft.Told (d : Draft) (g : Origin) (j : Journal) : Prop where
  path : d.path = g.entry.path
  lines : d.lines = g.lines
  touched : g.Touched d.written
  shown : lastWritten g.entry.path g.text j = renderLines g.lines d.written

namespace Draft.Told

variable {d d' : Draft} {disk disk' : Disk}

theorem after (h : d.Told g j) (hj : ∀ text, .wrote g.entry.path text ∉ j') :
    d.Told g (j ++ j') :=
  ⟨h.path, h.lines, h.touched, by rw [lastWritten_append, lastWritten_unwritten hj, h.shown]⟩

theorem wrote (h : d.Told g j) {states : List LineState} (hs : g.Touched states) :
    (d.wrote states).Told g (j ++ [.wrote d.path (renderLines d.lines states)]) where
  path := h.path
  lines := h.lines
  touched := hs
  shown := by
    rw [lastWritten_append, h.path, h.lines]
    simp [lastWritten, Draft.wrote]

theorem comment (h : d.Told g j) (hs : g.Touched d.states) {ns applied : List Nat}
    (hns : ∀ n ∈ ns, n ∈ g.entry.lines) (hc : d.comment disk ns = .ok (applied, d', disk')) :
    d'.Told g (j ++ d'.changeDeeds applied) := by
  by_cases ha : applied = []
  · subst ha
    obtain ⟨_, rfl, _⟩ := comment_nothing_ok hc
    simpa [changeDeeds] using h
  · obtain ⟨_, rfl, _⟩ := comment_wrote hc ha
    rw [changeDeeds, if_neg ha]
    refine h.wrote ?_
    rw [h.lines]
    exact hs.mark hns

theorem rollback (h : d.Told g j) (hs : g.Touched (settle .intact d.states)) {back : List Nat}
    (hr : d.rollback disk = .ok (back, d', disk')) : d'.Told g (j ++ d'.changeDeeds back) := by
  by_cases hp : d.pending = []
  · obtain ⟨rfl, rfl, _⟩ : [] = back ∧ d = d' ∧ disk = disk' := by
      simpa [Draft.rollback, hp] using hr
    simpa [changeDeeds] using h
  · obtain ⟨rfl, rfl, _⟩ := rollback_wrote hr hp
    rw [changeDeeds, if_neg hp]
    exact h.wrote hs

end Draft.Told

structure OpenFile.Clean (f : OpenFile) (g : Origin) : Prop where
  waiting : f.Waiting g
  fresh : f.draft.written = f.draft.states
  touched : g.Touched f.draft.states

/-- The file as the journal has written it, without the lines noted as committed. -/
structure Recorded (g : Origin) (j : Journal) (f : OpenFile) : Prop where
  told : f.draft.Told g j
  candidates : f.candidates = g.entry.candidates
  deleted : ∀ n, nth? f.draft.written n = some .deleted ↔
    n ∈ committedLines (notedFor g.entry.path j)

structure Traced (g : Origin) (j : Journal) (f : OpenFile) : Prop extends Recorded g j f where
  left : .commentedOut ∈ f.draft.written ↔ g.entry.path ∈ leftovers j

structure AtRest (g : Origin) (j : Journal) (f : OpenFile) : Prop extends Traced g j f where
  rest : f.remaining = [] ∨ f.Clean g

/-- Deeds that commit no line of the file and do not leave it behind. -/
structure Silent (path : Path) (j : Journal) : Prop where
  kept : committedLines (notedFor path j) = []
  notLeft : path ∉ leftovers j

structure Idle (path : Path) (j : Journal) : Prop extends Silent path j where
  unwritten : ∀ text, .wrote path text ∉ j

theorem Foreign.idle {path : Path} (h : Foreign path j) : Idle path j :=
  ⟨⟨by rw [h.notedFor]; rfl, h.leftovers⟩, fun _ hd => h _ hd rfl⟩

theorem Silent.append {path : Path} (h : Silent path j) (h' : Silent path j') :
    Silent path (j ++ j') := by
  refine ⟨?_, ?_⟩
  · rw [notedFor_append, committedLines_append, h.kept, h'.kept, List.append_nil]
  · rw [leftovers_append, List.mem_append, not_or]
    exact ⟨h.notLeft, h'.notLeft⟩

theorem changeDeeds_silent (path : Path) (d : Draft) (ns : List Nat) :
    Silent path (d.changeDeeds ns) := by
  unfold changeDeeds
  split
  · exact ⟨rfl, by simp⟩
  · exact ⟨rfl, by simp⟩

theorem notedFor_noteDeeds (f : OpenFile) (ns : List Nat) (r : Resolution) (tier : Tier) :
    notedFor f.draft.path (f.noteDeeds ns r tier) = outcomesOf f.candidates ns r tier := by
  simp [notedFor, Deed.outcomesFor, OpenFile.noteDeeds, OpenFile.outcomesAt, outcomesOf]

theorem noteDeeds_idle (f : OpenFile) (ns : List Nat) {r : Resolution} (hr : r ≠ .committed)
    (tier : Tier) : Idle f.draft.path (f.noteDeeds ns r tier) := by
  refine ⟨⟨?_, by simp [OpenFile.noteDeeds]⟩, by simp [OpenFile.noteDeeds]⟩
  rw [notedFor_noteDeeds]
  exact committedLines_kept _ ns hr tier

theorem giveUpDeeds_idle (f : OpenFile) (tier : Tier) : Idle f.draft.path (f.giveUpDeeds tier) :=
  noteDeeds_idle f _ (by simp) tier

theorem built_idle (path : Path) (tier : Tier) : Idle path [.built tier] :=
  ⟨⟨rfl, by simp⟩, by simp⟩

theorem Recorded.after {f : OpenFile} (h : Recorded g j f) (hj : Idle g.entry.path j') :
    Recorded g (j ++ j') f where
  told := h.told.after hj.unwritten
  candidates := h.candidates
  deleted := by
    intro n
    rw [notedFor_append, committedLines_append, hj.kept, List.append_nil]
    exact h.deleted n

namespace Traced

variable {f : OpenFile}

theorem after (h : Traced g j f) (hj : Idle g.entry.path j') : Traced g (j ++ j') f where
  toRecorded := h.toRecorded.after hj
  left := by
    rw [leftovers_append, List.mem_append, or_iff_left hj.notLeft]
    exact h.left

theorem resolved (h : Traced g j f) : AtRest g j { f with remaining := [] } :=
  ⟨⟨⟨h.told, h.candidates, h.deleted⟩, h.left⟩, .inl rfl⟩

theorem giveUp (h : Traced g j f) (tier : Tier) (p : Progress σ) :
    AtRest g (j ++ f.giveUpDeeds tier) (f.giveUp tier p).1 := by
  rw [OpenFile.giveUp, f.conclude_taken (takeLines_self f.remaining)]
  exact (h.after (h.told.path ▸ giveUpDeeds_idle f tier)).resolved

end Traced

theorem AtRest.after {f : OpenFile} (h : AtRest g j f) (hj : Idle g.entry.path j') :
    AtRest g (j ++ j') f :=
  ⟨h.toTraced.after hj, h.rest⟩

/-- The file with the unresolved lines of `f₀` commented out, until a build has judged them. -/
structure OnTrial (g : Origin) (j : Journal) (f₀ f : OpenFile) : Prop where
  clean : f₀.Clean g
  told : f.draft.Told g j
  candidates : f.candidates = g.entry.candidates
  states : f.draft.states = (mark g.lines f₀.remaining f₀.draft.states).1
  written : f.draft.written = f.draft.states
  deleted : ∀ n, nth? f₀.draft.states n = some .deleted ↔
    n ∈ committedLines (notedFor g.entry.path j)
  left : g.entry.path ∉ leftovers j
  remaining : f.remaining.Sublist f₀.remaining
  applied : ∀ n ∈ (mark g.lines f₀.remaining f₀.draft.states).2, n ∈ f.remaining

theorem nth?_mark_deleted {lines : List String} {ns : List Nat} {states : List LineState} {n : Nat} :
    nth? (mark lines ns states).1 n = some .deleted ↔ nth? states n = some .deleted := by
  rw [nth?_mark]
  split
  · rename_i hm
    simp [(removable_iff.1 (mem_mark.1 hm).2).1]
  · rfl

theorem nth?_settle_deleted {states : List LineState} {n : Nat} :
    nth? (settle .deleted states) n = some .deleted ↔
      nth? states n = some .deleted ∨ nth? states n = some .commentedOut := by
  rw [nth?_settle]
  cases nth? states n with
  | none => simp
  | some state => cases state <;> simp

theorem Traced.comment {f : OpenFile} (h : Traced g j f) (hf : f.Clean g) {applied : List Nat}
    {d : Draft} {disk disk' : Disk}
    (hc : f.draft.comment disk f.remaining = .ok (applied, d, disk')) :
    OnTrial g (j ++ d.changeDeeds applied) f { f with draft := d } := by
  have hsilent := changeDeeds_silent g.entry.path d applied
  obtain ⟨happlied, _, _, hstates, hnone, _⟩ := comment_ok hc
  refine ⟨hf, h.told.comment hf.touched hf.waiting.listed hc, h.candidates, ?_, ?_, ?_, ?_, .refl _,
    fun n hn => (mem_mark.1 hn).1⟩
  · rw [← hf.waiting.draft.lines]
    exact hstates
  · by_cases ha : applied = []
    · obtain ⟨rfl, _⟩ := hnone ha
      exact hf.fresh
    · obtain ⟨_, rfl, _⟩ := comment_wrote hc ha
      rfl
  · intro n
    rw [notedFor_append, committedLines_append, hsilent.kept, List.append_nil, ← hf.fresh]
    exact h.deleted n
  · rw [leftovers_append, List.mem_append, not_or, ← h.left, hf.fresh]
    exact ⟨hf.waiting.settled, hsilent.notLeft⟩

namespace OnTrial

variable {f₀ f : OpenFile}

theorem after (h : OnTrial g j f₀ f) (hj : Idle g.entry.path j') : OnTrial g (j ++ j') f₀ f where
  clean := h.clean
  told := h.told.after hj.unwritten
  candidates := h.candidates
  states := h.states
  written := h.written
  deleted := by
    intro n
    rw [notedFor_append, committedLines_append, hj.kept, List.append_nil]
    exact h.deleted n
  left := by
    rw [leftovers_append, List.mem_append, not_or]
    exact ⟨h.left, hj.notLeft⟩
  remaining := h.remaining
  applied := h.applied

theorem recorded (h : OnTrial g j f₀ f) : Recorded g (j ++ [.stuck f.draft.path]) f where
  told := h.told.after (by simp)
  candidates := h.candidates
  deleted := by
    intro n
    rw [h.written, h.states, nth?_mark_deleted, h.deleted]
    simp

theorem stuck (h : OnTrial g j f₀ f) (hc : .commentedOut ∈ f.draft.written) :
    Traced g (j ++ [.stuck f.draft.path]) f :=
  ⟨h.recorded, by simp [hc, h.told.path]⟩

theorem restored (h : OnTrial g j f₀ f) {d : Draft} (hpath : d.path = f.draft.path)
    (hlines : d.lines = f.draft.lines) (hstates : d.states = f₀.draft.states)
    (hwritten : d.written = f₀.draft.states) :
    AtRest g (j ++ [.wrote f.draft.path f₀.draft.snapshot.text]) { f with draft := d } := by
  have hw := h.clean.waiting
  refine ⟨⟨⟨⟨hpath.trans h.told.path, hlines.trans h.told.lines, ?_, ?_⟩, h.candidates, ?_⟩, ?_⟩, ?_⟩
  · rw [hwritten]
    exact h.clean.touched
  · rw [lastWritten_append, hwritten, ← hw.draft.lines]
    simp [lastWritten, h.told.path, Draft.snapshot, Draft.render]
  · intro n
    rw [hwritten, h.deleted]
    simp
  · rw [hwritten]
    exact iff_of_false hw.settled (by simpa using h.left)
  · have hwait := (hw.redrafted (d := d) (by rw [hpath, h.told.path, hw.draft.path])
      (by rw [hlines, h.told.lines, hw.draft.lines]) hstates).less h.remaining
    rw [hw.candidates, ← h.candidates] at hwait
    refine .inr ⟨hwait, hwritten.trans hstates.symm, ?_⟩
    change g.Touched d.states
    rw [hstates]
    exact h.clean.touched

/-- A batch that failed: the file is put back, or left behind with its lines commented out. -/
theorem restore (h : OnTrial g j f₀ f) (tier : Tier) (p : Progress σ)
    (hc : .commentedOut ∈ f.draft.written ∨
      g.entry.path ∉ leftovers (f.restoreDeeds f₀.draft.snapshot tier p)) :
    AtRest g (j ++ f.restoreDeeds f₀.draft.snapshot tier p)
      (f.restore f₀.draft.snapshot tier p).1 := by
  unfold OpenFile.restoreDeeds OpenFile.restore at *
  cases hr : f.draft.revert p.disk f₀.draft.snapshot with
  | ok r =>
    obtain ⟨d, disk⟩ := r
    obtain ⟨rfl, _⟩ := revert_wrote hr
    exact h.restored rfl rfl rfl rfl
  | error e =>
    have hmem : g.entry.path ∈ leftovers (.stuck f.draft.path :: f.giveUpDeeds tier) := by
      simp [h.told.path]
    simp only [hr] at hc
    have hcommented := hc.resolve_right (not_not_intro hmem)
    rw [List.append_cons]
    exact (h.stuck hcommented).giveUp tier _

theorem pending_perm (h : OnTrial g j f₀ f) :
    f.draft.pending.Perm (mark g.lines f₀.remaining f₀.draft.states).2 := by
  unfold Draft.pending
  rw [h.states]
  exact linesIn_mark_perm _ _ h.clean.waiting.settled

theorem deleted_pending (h : OnTrial g j f₀ f) (tier : Tier) (p : Progress σ) {d : Draft}
    (hd : d = f.draft.wrote (settle .deleted f.draft.states)) :
    AtRest g (j ++ .wrote d.path d.render ::
        ({ f with draft := d } : OpenFile).concludeDeeds f.draft.pending .committed tier)
      (({ f with draft := d } : OpenFile).conclude f.draft.pending .committed tier p).1 := by
  have hw := h.clean.waiting
  have hmem := fun n => (h.pending_perm.mem_iff (a := n))
  have htake : OpenFile.takeLines f.draft.pending f.remaining =
      (f.draft.pending, f.remaining.diff f.draft.pending) :=
    takeLines_subset (linesIn_nodup _ _ _) fun n hn => h.applied n ((hmem n).1 hn)
  have hcandidates : AllCandidates g.entry.candidates f.draft.pending :=
    fun n hn => hw.listed n (mem_mark.1 ((hmem n).1 hn)).1
  have htouched : g.Touched (settle .deleted f.draft.states) := by
    rw [← h.written]
    exact h.told.touched.settle .deleted
  have hnoted : notedFor g.entry.path
      (({ f with draft := d } : OpenFile).noteDeeds f.draft.pending .committed tier) =
      outcomesOf g.entry.candidates f.draft.pending .committed tier := by
    subst hd
    rw [← h.told.path, ← h.candidates]
    exact notedFor_noteDeeds { f with draft := f.draft.wrote _ } f.draft.pending .committed tier
  rw [OpenFile.conclude_taken ({ f with draft := d } : OpenFile) htake, OpenFile.concludeDeeds,
    htake, List.append_cons]
  subst hd
  refine ⟨⟨⟨(h.told.wrote htouched).after (by simp [OpenFile.noteDeeds]), h.candidates, ?_⟩, ?_⟩,
    .inr ⟨?_, rfl, htouched⟩⟩
  · intro n
    change nth? (settle .deleted f.draft.states) n = _ ↔ _
    rw [notedFor_append, notedFor_append, hnoted, committedLines_append, committedLines_append,
      committedLines_committed hcandidates, nth?_settle_deleted, List.mem_append, List.mem_append,
      ← h.deleted, h.states, nth?_mark_deleted]
    simp [Draft.pending, mem_linesIn_one, h.states, committedLines]
  · refine iff_of_false (commentedOut_not_mem_settle (by simp) _) ?_
    simpa [OpenFile.noteDeeds] using h.left
  · have hremoved : OpenFile.Waiting { f₀ with
        draft := f.draft.wrote (settle .deleted f.draft.states)
        remaining := f.remaining.diff f.draft.pending } g := hw.removed (fun n hn => hn)
      (h.told.path.trans hw.draft.path.symm) (h.told.lines.trans hw.draft.lines.symm)
      (by rw [hw.draft.lines, ← h.states]; rfl) ((List.diff_sublist _ _).trans h.remaining)
      (by
        intro n hn
        rw [hw.draft.lines, ← hmem n]
        exact ((hw.nodup.sublist h.remaining).mem_sdiff_iff.1 hn).2)
    rw [hw.candidates, ← h.candidates] at hremoved
    exact hremoved

/-- A batch that passed: its lines are deleted, or the file is put back and given up. -/
theorem commit (h : OnTrial g j f₀ f) (tier : Tier) (p : Progress σ)
    (hc : .commentedOut ∈ f.draft.written) :
    AtRest g (j ++ f.commitDeeds f₀.draft.snapshot tier p)
      (f.commit f₀.draft.snapshot tier p).2.1 := by
  unfold OpenFile.commitDeeds OpenFile.commit
  cases hd : f.draft.delete p.disk with
  | ok r =>
    obtain ⟨ls, d, disk⟩ := r
    obtain ⟨rfl, hwrote, _⟩ := delete_wrote hd
    exact h.deleted_pending tier _ hwrote
  | error e =>
    rw [← List.append_assoc]
    exact (h.restore tier p (.inl hc)).giveUp tier _

theorem less (h : OnTrial g j f₀ f) (rest : List Nat) (hrest : rest.Sublist f₀.remaining)
    (happlied : ∀ n ∈ (mark g.lines f₀.remaining f₀.draft.states).2, n ∈ rest) :
    OnTrial g j f₀ { f with remaining := rest } :=
  ⟨h.clean, h.told, h.candidates, h.states, h.written, h.deleted, h.left, hrest, happlied⟩

theorem commentedOut_mem (h : OnTrial g j f₀ f)
    (hm : (mark g.lines f₀.remaining f₀.draft.states).2 ≠ []) : .commentedOut ∈ f.draft.written := by
  obtain ⟨n, hn⟩ := List.exists_mem_of_ne_nil _ hm
  refine mem_of_nth? (n := n) ?_
  rw [h.written, h.states, nth?_mark, if_pos hn]

end OnTrial

theorem Traced.tryTogether {f : OpenFile} (h : Traced g j f) (hf : f.Clean g) {applied : List Nat}
    {d : Draft} {disk disk' : Disk}
    (hc : f.draft.comment disk f.remaining = .ok (applied, d, disk')) (ha : applied ≠ []) :
    OnTrial g (j ++ f.tryTogetherDeeds d applied) f (f.onTrial d applied) ∧
      .commentedOut ∈ (f.onTrial d applied).draft.written := by
  have happlied : applied = (mark g.lines f.remaining f.draft.states).2 := by
    rw [← hf.waiting.draft.lines]
    exact (comment_ok hc).1
  have hless : OnTrial g (j ++ d.changeDeeds applied) f (f.onTrial d applied) := by
    refine (h.comment hf hc).less _ List.filter_sublist fun n hn => ?_
    exact List.mem_filter.2 ⟨(mem_mark.1 hn).1, by simpa [happlied] using hn⟩
  have hskip := noteDeeds_idle (f.onTrial d applied) (f.passedOver applied) (r := .keptSkipped)
    (by simp) .perFile
  rw [hless.told.path] at hskip
  refine ⟨?_, hless.commentedOut_mem (happlied ▸ ha)⟩
  rw [OpenFile.tryTogetherDeeds, ← List.append_assoc, ← List.append_assoc]
  exact (hless.after hskip).after (built_idle g.entry.path .perFile)

end IncludeSweep
