import IncludeSweep.Proofs.FileTrace

set_option autoImplicit false

/-! # What the loop over lines leaves of a file

While lines are tried one after the other the file lags behind its draft by the lines that were
confirmed last. What is noted as committed in the end are the lines that are gone from the file. -/

namespace IncludeSweep

open Text Draft

variable {σ : Type} {g : Origin} {j j' : Journal}

/-- A file in the middle of the loop. The draft is ahead of the file by lines that a build has
passed, and that the next write deletes. -/
structure Lagging (g : Origin) (j : Journal) (f : OpenFile) : Prop where
  waiting : f.Waiting g
  told : f.draft.Told g j
  lag : f.draft.states = settle .deleted f.draft.written

/-- One line was tried and the loop goes on; `ns` are the lines confirmed by it. -/
structure LoopStep (g : Origin) (j j₁ : Journal) (f : OpenFile) (ns : List Nat) (f₁ : OpenFile) :
    Prop extends Lagging g (j ++ j₁) f₁ where
  listed : ∀ n ∈ ns, n ∈ g.entry.lines
  deleted : ∀ n, nth? f₁.draft.states n = some .deleted ↔
    nth? f.draft.states n = some .deleted ∨ n ∈ ns
  persists : ∀ n, nth? f.draft.written n = some .deleted → nth? f₁.draft.written n = some .deleted
  silent : Silent g.entry.path j₁

/-- What the loop over lines has done to a file. The file lags behind its draft by confirmed lines
only, unless the loop has left it behind. -/
structure LoopTrace (g : Origin) (j j' : Journal) (f : OpenFile) (news : List Nat) (f' : OpenFile) :
    Prop where
  told : f'.draft.Told g (j ++ j')
  candidates : f'.candidates = g.entry.candidates
  resolved : f'.remaining = []
  listed : ∀ n ∈ news, n ∈ g.entry.lines
  deleted : ∀ n, nth? f'.draft.states n = some .deleted ↔
    nth? f.draft.states n = some .deleted ∨ n ∈ news
  persists : ∀ n, nth? f.draft.written n = some .deleted → nth? f'.draft.written n = some .deleted
  kept : committedLines (notedFor g.entry.path j') = []
  ends : f'.draft.states = settle .deleted f'.draft.written ∧ g.entry.path ∉ leftovers j' ∨
    f'.draft.states = f'.draft.written ∧ .commentedOut ∈ f'.draft.written ∧
      g.entry.path ∈ leftovers j'

theorem LoopTrace.after {f f₁ f' : OpenFile} {ns news : List Nat} {j₁ : Journal}
    (h : LoopTrace g (j ++ j₁) j' f₁ news f') (hs : LoopStep g j j₁ f ns f₁) :
    LoopTrace g j (j₁ ++ j') f (ns ++ news) f' where
  told := by
    rw [← List.append_assoc]
    exact h.told
  candidates := h.candidates
  resolved := h.resolved
  listed := by
    intro n hn
    rcases List.mem_append.1 hn with hn | hn
    · exact hs.listed n hn
    · exact h.listed n hn
  deleted := by
    intro n
    rw [h.deleted, hs.deleted, List.mem_append, or_assoc]
  persists := fun n hn => h.persists n (hs.persists n hn)
  kept := by rw [notedFor_append, committedLines_append, hs.silent.kept, h.kept, List.append_nil]
  ends := by
    rw [leftovers_append, List.mem_append, or_iff_right hs.silent.notLeft]
    exact h.ends

namespace Lagging

variable {f : OpenFile} {n : Nat} {applied : List Nat} {d : Draft} {disk disk' : Disk}

theorem stopped (h : Lagging g j f) {f' : OpenFile} (hnil : f'.remaining = [])
    (hd : f'.draft = f.draft) (hc : f'.candidates = f.candidates) (hj : Idle g.entry.path j') :
    LoopTrace g j j' f [] f' where
  told := by
    rw [hd]
    exact h.told.after hj.unwritten
  candidates := hc.trans h.waiting.candidates
  resolved := hnil
  listed := by simp
  deleted := by simp [hd]
  persists := by simp [hd]
  kept := hj.kept
  ends := by
    rw [hd]
    exact .inl ⟨h.lag, hj.notLeft⟩

theorem deleted_of_written (h : Lagging g j f) (m : Nat)
    (hm : nth? f.draft.written m = some .deleted) : nth? f.draft.states m = some .deleted := by
  rw [h.lag, nth?_settle_deleted]
  exact .inl hm

theorem touched (h : Lagging g j f) : g.Touched f.draft.states := by
  rw [h.lag]
  exact h.told.touched.settle .deleted

/-- The write that comments out one line takes the confirmed lines out of the file. -/
theorem commented (h : Lagging g j f) (hn : n ∈ f.remaining)
    (hc : f.draft.comment disk [n] = .ok (applied, d, disk')) (ha : applied ≠ []) :
    d = f.draft.wrote (mark f.draft.lines [n] f.draft.states).1 ∧
      (mark f.draft.lines [n] f.draft.states).2 = [n] ∧ d.Told g (j ++ d.changeDeeds applied) := by
  obtain ⟨happlied, hd, _⟩ := comment_wrote hc ha
  refine ⟨hd, mark_single_of_ne (happlied ▸ ha), h.told.comment h.touched ?_ hc⟩
  intro m hm
  rw [List.mem_singleton.1 hm]
  exact h.waiting.listed n hn

theorem rolledBack (h : Lagging g j f) (hm : (mark f.draft.lines [n] f.draft.states).2 = [n])
    {back : List Nat}
    (hr : (f.draft.wrote (mark f.draft.lines [n] f.draft.states).1).rollback disk =
      .ok (back, d, disk')) : d = f.draft.wrote f.draft.states := by
  have hmem : n ∈ (mark f.draft.lines [n] f.draft.states).2 := by
    rw [hm]
    exact List.mem_singleton_self n
  obtain ⟨_, rfl, _⟩ := rollback_wrote hr
    (List.ne_nil_of_mem (f.draft.pending_wrote_mark hmem))
  simp only [Draft.wrote, settle_mark h.waiting.settled]

theorem skip (h : Lagging g j f) (n : Nat) :
    LoopStep g j (f.concludeDeeds [n] .keptSkipped .sequential) f []
      { f with remaining := f.remaining.erase n } := by
  have hidle : Idle g.entry.path (f.concludeDeeds [n] .keptSkipped .sequential) :=
    h.told.path ▸ noteDeeds_idle f _ (by simp) .sequential
  exact ⟨⟨h.waiting.less List.erase_sublist, h.told.after hidle.unwritten, h.lag⟩, by simp,
    by simp, fun _ hm => hm, hidle.toSilent⟩

/-- Confirming changes the states only: the file keeps the line commented out until the next
write. -/
theorem pass (h : Lagging g j f) (hn : n ∈ f.remaining)
    (hc : f.draft.comment disk [n] = .ok (applied, d, disk')) (ha : applied ≠ []) :
    LoopStep g j (d.changeDeeds applied ++ [.built .sequential]) f [n]
      { f with draft := d.confirm.2, remaining := f.remaining.erase n } := by
  have hone : ∀ m ∈ [n], m ∈ f.remaining := fun m hm => List.mem_singleton.1 hm ▸ hn
  have hwait := h.waiting.confirmed hone hc ha
  obtain ⟨rfl, hmark, htold⟩ := h.commented hn hc ha
  have hbuilt := htold.after (built_idle g.entry.path .sequential).unwritten
  rw [List.append_assoc] at hbuilt
  refine ⟨⟨hwait, ⟨hbuilt.path, hbuilt.lines, hbuilt.touched, hbuilt.shown⟩, rfl⟩,
    fun m hm => h.waiting.listed m (hone m hm), fun m => ?_, fun m hm => ?_,
    (changeDeeds_silent _ _ applied).append (built_idle _ .sequential).toSilent⟩
  · have hmem : m ∈ linesIn .commentedOut 1 (mark f.draft.lines [n] f.draft.states).1 ↔ _ :=
      mem_linesIn_mark h.waiting.settled
    rw [mem_linesIn_one, hmark] at hmem
    change nth? (settle .deleted (mark f.draft.lines [n] f.draft.states).1) m = _ ↔ _
    rw [nth?_settle_deleted, nth?_mark_deleted, hmem]
  · exact nth?_mark_deleted.2 (h.deleted_of_written m hm)

theorem fail (h : Lagging g j f) (hn : n ∈ f.remaining)
    (hc : f.draft.comment disk [n] = .ok (applied, d, disk')) (ha : applied ≠ []) {back : List Nat}
    {d' : Draft} {tree tree' : Disk} (hr : d.rollback tree = .ok (back, d', tree')) :
    LoopStep g j (d.changeDeeds applied ++ [.built .sequential] ++ (d'.changeDeeds back ++
        ({ f with draft := d' } : OpenFile).concludeDeeds [n] .keptBuildFailed .sequential)) f []
      { f with draft := d', remaining := f.remaining.erase n } := by
  have hwait := (h.waiting.rolledBack hc hr).less (List.erase_sublist (a := n))
  obtain ⟨rfl, hmark, htold⟩ := h.commented hn hc ha
  obtain rfl := h.rolledBack hmark hr
  have htouched : g.Touched (settle .intact (mark f.draft.lines [n] f.draft.states).1) := by
    rw [settle_mark h.waiting.settled]
    exact h.touched
  have hrolled := (htold.after (built_idle g.entry.path .sequential).unwritten).rollback
    htouched hr
  have hidle : Idle g.entry.path
      (({ f with draft := f.draft.wrote f.draft.states } : OpenFile).concludeDeeds [n]
        .keptBuildFailed .sequential) :=
    h.told.path ▸ noteDeeds_idle { f with draft := f.draft.wrote _ } _ (by simp) .sequential
  have hend := hrolled.after hidle.unwritten
  simp only [List.append_assoc] at hend ⊢
  refine ⟨⟨hwait, hend, (settle_of_not_mem h.waiting.settled).symm⟩, by simp,
    by simp [Draft.wrote], h.deleted_of_written, ?_⟩
  exact (changeDeeds_silent _ _ applied).append ((built_idle _ .sequential).toSilent.append
    ((changeDeeds_silent _ _ back).append hidle.toSilent))

/-- The line stays commented out in the file, which is listed for it. -/
theorem stuck (h : Lagging g j f) (hn : n ∈ f.remaining)
    (hc : f.draft.comment disk [n] = .ok (applied, d, disk')) (ha : applied ≠ [])
    (p : Progress σ) :
    LoopTrace g j (d.changeDeeds applied ++ .built .sequential :: .stuck d.path ::
        ({ f with draft := d } : OpenFile).giveUpDeeds .sequential) f []
      (({ f with draft := d } : OpenFile).giveUp .sequential p).1 := by
  obtain ⟨rfl, hmark, htold⟩ := h.commented hn hc ha
  let f₁ : OpenFile := { f with draft := f.draft.wrote (mark f.draft.lines [n] f.draft.states).1 }
  have hgiven : Idle g.entry.path (f₁.giveUpDeeds .sequential) :=
    h.told.path ▸ giveUpDeeds_idle f₁ .sequential
  have hcommented : .commentedOut ∈ (mark f.draft.lines [n] f.draft.states).1 := by
    refine mem_of_nth? (n := n) ?_
    rw [nth?_mark, hmark, if_pos (List.mem_singleton_self n)]
  have hsilent := changeDeeds_silent g.entry.path f₁.draft applied
  rw [OpenFile.giveUp, f₁.conclude_taken (takeLines_self f₁.remaining)]
  refine ⟨?_, h.waiting.candidates, rfl, by simp, fun m => ?_, fun m hm => ?_, ?_,
    .inr ⟨rfl, hcommented, ?_⟩⟩
  · rw [← List.append_assoc]
    refine htold.after ?_
    simp only [List.mem_cons, reduceCtorEq, false_or]
    exact hgiven.unwritten
  · change nth? (mark f.draft.lines [n] f.draft.states).1 m = _ ↔ _
    rw [nth?_mark_deleted]
    simp
  · exact nth?_mark_deleted.2 (h.deleted_of_written m hm)
  · simpa [committedLines_append] using And.intro hsilent.kept hgiven.kept
  · simp [htold.path]

end Lagging

structure Landed (g : Origin) (j j' : Journal) (f : OpenFile) (news : List Nat) (f' : OpenFile) :
    Prop where
  told : f'.draft.Told g (j ++ j')
  candidates : f'.candidates = g.entry.candidates
  resolved : f'.remaining = []
  deleted : ∀ n, nth? f'.draft.written n = some .deleted →
    nth? f.draft.states n = some .deleted ∨ n ∈ news
  persists : ∀ n, nth? f.draft.written n = some .deleted → nth? f'.draft.written n = some .deleted
  kept : committedLines (notedFor g.entry.path j') = []
  left : .commentedOut ∈ f'.draft.written ↔ g.entry.path ∈ leftovers j'

namespace LoopTrace

variable {f f' : OpenFile} {news : List Nat}

theorem landed (h : LoopTrace g j j' f news f') (hfresh : f'.draft.written = f'.draft.states) :
    Landed g j j' f news f' where
  told := h.told
  candidates := h.candidates
  resolved := h.resolved
  deleted := by
    intro n hn
    rw [hfresh] at hn
    exact (h.deleted n).1 hn
  persists := h.persists
  kept := h.kept
  left := by
    rcases h.ends with ⟨hlag, hleft⟩ | ⟨_, hcommented, hleft⟩
    · refine iff_of_false ?_ hleft
      rw [hfresh, hlag]
      exact commentedOut_not_mem_settle (by simp) _
    · exact iff_of_true hcommented hleft

theorem flush (h : LoopTrace g j j' f news f') {p : Progress σ}
    (hp : p.unrestored.any g.entry.path.same = true → g.entry.path ∈ leftovers j') :
    Landed g j (j' ++ f'.flushDeeds p) f news (f'.flush p).1 := by
  unfold OpenFile.flushDeeds OpenFile.flush
  by_cases hu : f'.draft.unwritten = true
  · have hne : f'.draft.states ≠ f'.draft.written := by simpa [Draft.unwritten] using hu
    obtain ⟨hlag, hleft⟩ := h.ends.resolve_right fun hs => hne hs.1
    have hgone : ∀ n, nth? f'.draft.written n = some .deleted →
        nth? f'.draft.states n = some .deleted := by
      intro n hn
      rw [hlag, nth?_settle_deleted]
      exact .inl hn
    simp only [hu, if_true]
    cases hflush : f'.draft.flush p.disk with
    | ok r =>
      obtain ⟨d, disk⟩ := r
      obtain ⟨rfl, _⟩ := flush_wrote hflush
      refine ⟨?_, h.candidates, h.resolved, fun n hn => (h.deleted n).1 hn,
        fun n hn => hgone n (h.persists n hn), by simpa using h.kept, ?_⟩
      · rw [← List.append_assoc]
        refine h.told.wrote ?_
        rw [hlag]
        exact h.told.touched.settle .deleted
      · change .commentedOut ∈ f'.draft.states ↔ _
        refine iff_of_false ?_ (by simpa using hleft)
        rw [hlag]
        exact commentedOut_not_mem_settle (by simp) _
    | error e =>
      have hany : p.unrestored.any f'.draft.path.same = false := by
        rw [h.told.path, ← Bool.not_eq_true]
        exact fun hany => hleft (hp hany)
      have hcommented : .commentedOut ∈ f'.draft.written := by
        by_contra hnone
        exact hne (hlag.trans (settle_of_not_mem hnone))
      simp only [hany, Bool.false_eq_true, if_false]
      refine ⟨?_, h.candidates, h.resolved, fun n hn => (h.deleted n).1 (hgone n hn), h.persists,
        by simpa using h.kept, iff_of_true hcommented (by simp [h.told.path])⟩
      rw [← List.append_assoc]
      exact h.told.after (by simp)
  · simp only [hu, Bool.false_eq_true, if_false, List.append_nil]
    have hfresh : f'.draft.states = f'.draft.written := by simpa [Draft.unwritten] using hu
    exact h.landed hfresh.symm

end LoopTrace

theorem AtRest.clean {f : OpenFile} (h : AtRest g j f) (hne : f.remaining ≠ []) : f.Clean g :=
  h.rest.resolve_left hne

theorem AtRest.notLeft {f : OpenFile} (h : AtRest g j f) (hne : f.remaining ≠ []) :
    g.entry.path ∉ leftovers j := by
  rw [← h.left, (h.clean hne).fresh]
  exact (h.clean hne).waiting.settled

end IncludeSweep
