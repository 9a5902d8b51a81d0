import IncludeSweep.Proofs.Course

set_option autoImplicit false

/-! # The tiers of one file

While nothing else edits the disk, the finer tiers follow the course of a file: the loop over its
lines, the batch of its lines, and the one after the other. -/

namespace IncludeSweep

open Text Draft

variable {σ : Type}

theorem Draft.At.wrote_written {d : Draft} {disk : Disk} {s : Site} (h : d.At disk s) :
    ({ d.wrote d.written with states := d.states } : Draft) = d := by
  obtain ⟨path, lines, states, written, digest⟩ := d
  have hd := h.digest
  have hl := h.lines
  simp only at hd hl
  simp [Draft.wrote, hd, hl]

theorem Draft.pending_wrote_mark (d : Draft) {ns : List Nat} {states : List LineState} {n : Nat}
    (h : n ∈ (mark d.lines ns states).2) : n ∈ (d.wrote (mark d.lines ns states).1).pending := by
  unfold Draft.pending Draft.wrote
  rw [mem_linesIn_one, nth?_mark, if_pos h]

theorem OpenFile.conclude_taken (f : OpenFile) {ns taken rest : List Nat}
    (h : OpenFile.takeLines ns f.remaining = (taken, rest)) (resolution : Resolution) (tier : Tier)
    (p : Progress σ) :
    f.conclude ns resolution tier p =
      ({ f with remaining := rest }, f.note taken resolution tier p) := by
  simp [OpenFile.conclude, h]

theorem OpenFile.conclude_single (f : OpenFile) {n : Nat} (h : n ∈ f.remaining)
    (resolution : Resolution) (tier : Tier) (p : Progress σ) :
    f.conclude [n] resolution tier p =
      ({ f with remaining := f.remaining.erase n }, f.note [n] resolution tier p) :=
  f.conclude_taken (takeLines_singleton h) resolution tier p

theorem tryLines_skipped {build : Build σ} {n : Nat} {ns confirmed : List Nat} {f : OpenFile}
    {p : Progress σ} {draft : Draft} {disk : Disk} (ht : p.tainted = false)
    (hc : f.draft.comment p.disk [n] = .ok ([], draft, disk)) :
    tryLines build (n :: ns) confirmed f p =
      tryLines build ns confirmed (f.conclude [n] .keptSkipped .sequential p).1
        (f.conclude [n] .keptSkipped .sequential p).2 := by
  simp [tryLines, ht, hc]

theorem tryLines_passed {build : Build σ} {n : Nat} {ns confirmed applied : List Nat} {f : OpenFile}
    {p : Progress σ} {draft : Draft} {disk : Disk} (ht : p.tainted = false)
    (hc : f.draft.comment p.disk [n] = .ok (applied, draft, disk)) (ha : applied ≠ [])
    (hv : ((p.withDisk disk).verify build .sequential).1 = true) :
    tryLines build (n :: ns) confirmed f p =
      tryLines build ns (confirmed ++ [n])
        { f with draft := draft.confirm.2, remaining := f.remaining.erase n }
        ((p.withDisk disk).verify build .sequential).2 := by
  simp [tryLines, ht, hc, ha, hv]

theorem tryLines_failed {build : Build σ} {n : Nat} {ns confirmed applied back : List Nat}
    {f : OpenFile} {p : Progress σ} {draft draft' : Draft} {disk disk' : Disk}
    (ht : p.tainted = false) (hc : f.draft.comment p.disk [n] = .ok (applied, draft, disk))
    (ha : applied ≠ []) (hv : ((p.withDisk disk).verify build .sequential).1 = false)
    (hr : draft.rollback ((p.withDisk disk).verify build .sequential).2.disk =
      .ok (back, draft', disk')) :
    tryLines build (n :: ns) confirmed f p =
      tryLines build ns confirmed
        (({ f with draft := draft' } : OpenFile).conclude [n] .keptBuildFailed .sequential
          (((p.withDisk disk).verify build .sequential).2.withDisk disk')).1
        (({ f with draft := draft' } : OpenFile).conclude [n] .keptBuildFailed .sequential
          (((p.withDisk disk).verify build .sequential).2.withDisk disk')).2 := by
  simp [tryLines, ht, hc, ha, hv, hr]

/-- What the loop over lines has done to a file and to the progress. The file lags behind its draft
by the confirmed lines only, so the states at the end are the written ones settled. -/
structure Tried (build : Build σ) (tree : List LineState → Disk) (ns : List Nat) (f : OpenFile)
    (p : Progress σ) (confirmed : List Nat) (written : List LineState) (ts : List Trial)
    (kept os : List Outcome) (p' : Progress σ) : Prop where
  idle : confirmed = [] → f.draft.states = f.draft.written → settle .deleted written = written
  gone : ∀ n ∈ confirmed, nth? (settle .deleted written) n = some .deleted
  disk : p'.disk = tree written
  adds : p.Adds build p' ts kept
  course : LineCourse f.draft.lines f.candidates tree ns f.draft.states ts os
    (settle .deleted written)
  outcomes : os.Perm (kept ++ outcomesOf f.candidates confirmed .committed .sequential)

namespace Tried

variable {build : Build σ} {tree : List LineState → Disk} {n : Nat} {ns confirmed rest : List Nat}
  {f : OpenFile} {p q p' : Progress σ} {written : List LineState} {ts : List Trial}
  {kept os : List Outcome}

theorem skipped (hm : (mark f.draft.lines [n] f.draft.states).2 = [])
    (h : Tried build tree ns { f with remaining := rest } (f.note [n] .keptSkipped .sequential p)
      confirmed written ts kept os p') :
    Tried build tree (n :: ns) f p confirmed written ts
      (outcomesOf f.candidates [n] .keptSkipped .sequential ++ kept)
      (outcomesOf f.candidates [n] .keptSkipped .sequential ++ os) p' where
  idle := h.idle
  gone := h.gone
  disk := h.disk
  adds := ((Progress.adds_refl build p).noted f [n] .keptSkipped .sequential).trans h.adds
  course := .skipped hm h.course
  outcomes := by
    rw [List.append_assoc]
    exact h.outcomes.append_left _

theorem passed (hm : (mark f.draft.lines [n] f.draft.states).2 ≠ [])
    (hq : p.Adds build q
      [⟨some .sequential, tree (mark f.draft.lines [n] f.draft.states).1, true⟩] [])
    (h : Tried build tree ns
      { f with
        draft := (f.draft.wrote (mark f.draft.lines [n] f.draft.states).1).confirm.2
        remaining := rest }
      q confirmed written ts kept os p') :
    Tried build tree (n :: ns) f p (n :: confirmed) written
      (⟨some .sequential, tree (mark f.draft.lines [n] f.draft.states).1, true⟩ :: ts) kept
      (outcomesOf f.candidates [n] .committed .sequential ++ os) p' where
  idle := by simp
  gone := by
    intro m hm'
    rcases List.mem_cons.1 hm' with rfl | hm'
    · apply h.course.deleted
      change nth? (settle .deleted (mark f.draft.lines [m] f.draft.states).1) m = _
      rw [nth?_settle, nth?_mark, mark_single_of_ne hm]
      simp
    · exact h.gone m hm'
  disk := h.disk
  adds := hq.trans h.adds
  course := .passed hm h.course
  outcomes := by
    have hsplit : outcomesOf f.candidates (n :: confirmed) .committed .sequential =
        outcomesOf f.candidates [n] .committed .sequential ++
          outcomesOf f.candidates confirmed .committed .sequential := by
      simp only [outcomesOf, ← List.filterMap_append]
      rfl
    rw [hsplit, ← List.append_assoc]
    refine (h.outcomes.append_left _).trans ?_
    rw [← List.append_assoc]
    exact List.perm_append_comm.append_right _

theorem failed (hm : (mark f.draft.lines [n] f.draft.states).2 ≠ [])
    (hq : p.Adds build q [⟨some .sequential, tree (mark f.draft.lines [n] f.draft.states).1, false⟩]
      (outcomesOf f.candidates [n] .keptBuildFailed .sequential))
    (h : Tried build tree ns { f with draft := f.draft.wrote f.draft.states, remaining := rest }
      q confirmed written ts kept os p') :
    Tried build tree (n :: ns) f p confirmed written
      (⟨some .sequential, tree (mark f.draft.lines [n] f.draft.states).1, false⟩ :: ts)
      (outcomesOf f.candidates [n] .keptBuildFailed .sequential ++ kept)
      (outcomesOf f.candidates [n] .keptBuildFailed .sequential ++ os) p' where
  idle := fun hc _ => h.idle hc rfl
  gone := h.gone
  disk := h.disk
  adds := hq.trans h.adds
  course := .failed hm h.course
  outcomes := by
    rw [List.append_assoc]
    exact h.outcomes.append_left _

end Tried

def Loops (build : Build σ) (tree : List LineState → Disk) (ns : List Nat) (f : OpenFile)
    (p : Progress σ) : Prop :=
  ∀ confirmed, ∃ (cs : List Nat) (written : List LineState) (ts : List Trial)
    (kept os : List Outcome) (p' : Progress σ),
    tryLines build ns confirmed f p = (confirmed ++ cs,
      ⟨{ f.draft.wrote written with states := settle .deleted written }, f.candidates, []⟩, p') ∧
    Tried build tree ns f p cs written ts kept os p'

section
variable {build : Build σ} {disk : Disk} {sites : List Site} {s : Site} {w : Layout}

theorem Draft.rollback_mark (h : Sited disk sites) (hs : s ∈ sites) {d : Draft} (hat : d.At disk s)
    (ht : disk.takes d.path = true) (hclean : .commentedOut ∉ d.states) {ns : List Nat}
    (hm : (mark d.lines ns d.states).2 ≠ []) :
    (d.wrote (mark d.lines ns d.states).1).rollback
        (disk.relaid sites w s.loc (mark d.lines ns d.states).1) =
      .ok ((d.wrote (mark d.lines ns d.states).1).pending, d.wrote d.states,
        disk.relaid sites w s.loc d.states) := by
  obtain ⟨n, hn⟩ := List.exists_mem_of_ne_nil _ hm
  have hpending := List.ne_nil_of_mem (d.pending_wrote_mark hn)
  refine (rollback_laid h hs (hat.wrote _) ht hpending).trans ?_
  simp only [Draft.wrote, settle_mark hclean]

namespace Loops

variable {tree : List LineState → Disk} {n : Nat} {ns : List Nat} {f : OpenFile} {p : Progress σ}

theorem nil (hat : f.draft.At disk s) (hset : f.draft.states = settle .deleted f.draft.written)
    (hdisk : p.disk = tree f.draft.written) (hrem : f.remaining = []) : Loops build tree [] f p := by
  intro confirmed
  refine ⟨[], f.draft.written, [], [], [], p, ?_, fun _ he => hset ▸ he, by simp, hdisk,
    Progress.adds_refl build p, ?_, by simp [outcomesOf]⟩
  · rw [← hset, hat.wrote_written]
    simp [tryLines, ← hrem]
  · rw [← hset]
    exact .done _

theorem skipped (htaint : p.tainted = false) (hn : n ∈ f.remaining)
    (hm : (mark f.draft.lines [n] f.draft.states).2 = [])
    (h : Loops build tree ns { f with remaining := f.remaining.erase n }
      (f.note [n] .keptSkipped .sequential p)) :
    Loops build tree (n :: ns) f p := by
  intro confirmed
  obtain ⟨cs, written, ts, kept, os, p', he, ht⟩ := h confirmed
  refine ⟨cs, written, ts, _, _, p', ?_, ht.skipped hm⟩
  rw [tryLines_skipped htaint (comment_nothing hm p.disk), f.conclude_single hn, he]

def judged (build : Build σ) (tree : List LineState → Disk) (n : Nat) (f : OpenFile)
    (p : Progress σ) : Bool × Progress σ :=
  (p.withDisk (tree (mark f.draft.lines [n] f.draft.states).1)).verify build .sequential

theorem judged_adds (build : Build σ) (tree : List LineState → Disk) (n : Nat) (f : OpenFile)
    (p : Progress σ) : p.Adds build (judged build tree n f p).2
      [⟨some .sequential, tree (mark f.draft.lines [n] f.draft.states).1,
        (judged build tree n f p).1⟩] [] :=
  ((Progress.adds_refl build p).onDisk _).verified .sequential

theorem passed (htaint : p.tainted = false)
    (hm : (mark f.draft.lines [n] f.draft.states).2 ≠ [])
    (hcomment : f.draft.comment p.disk [n] = .ok ((mark f.draft.lines [n] f.draft.states).2,
      f.draft.wrote (mark f.draft.lines [n] f.draft.states).1,
      tree (mark f.draft.lines [n] f.draft.states).1))
    (hpass : (judged build tree n f p).1 = true)
    (h : Loops build tree ns
      { f with
        draft := (f.draft.wrote (mark f.draft.lines [n] f.draft.states).1).confirm.2
        remaining := f.remaining.erase n }
      (judged build tree n f p).2) :
    Loops build tree (n :: ns) f p := by
  intro confirmed
  have hadds := judged_adds build tree n f p
  obtain ⟨cs, written, ts, kept, os, p', he, ht⟩ := h (confirmed ++ [n])
  rw [hpass] at hadds
  refine ⟨n :: cs, written, _, kept, _, p', ?_, ht.passed hm hadds⟩
  rw [tryLines_passed htaint hcomment hm hpass]
  change tryLines build ns (confirmed ++ [n]) _ (judged build tree n f p).2 = _
  rw [he, List.append_assoc]
  rfl

theorem failed (htaint : p.tainted = false) (hn : n ∈ f.remaining)
    (hm : (mark f.draft.lines [n] f.draft.states).2 ≠ [])
    (hcomment : f.draft.comment p.disk [n] = .ok ((mark f.draft.lines [n] f.draft.states).2,
      f.draft.wrote (mark f.draft.lines [n] f.draft.states).1,
      tree (mark f.draft.lines [n] f.draft.states).1))
    (hfail : (judged build tree n f p).1 = false) {back : List Nat}
    (hroll : (f.draft.wrote (mark f.draft.lines [n] f.draft.states).1).rollback
      (judged build tree n f p).2.disk = .ok (back, f.draft.wrote f.draft.states,
        tree f.draft.states))
    (h : Loops build tree ns
      { f with draft := f.draft.wrote f.draft.states, remaining := f.remaining.erase n }
      (f.note [n] .keptBuildFailed .sequential
        ((judged build tree n f p).2.withDisk (tree f.draft.states)))) :
    Loops build tree (n :: ns) f p := by
  intro confirmed
  have hadds := judged_adds build tree n f p
  let g : OpenFile := { f with draft := f.draft.wrote f.draft.states }
  obtain ⟨cs, written, ts, kept, os, p', he, ht⟩ := h confirmed
  rw [hfail] at hadds
  have hnoted := (hadds.onDisk (tree f.draft.states)).noted g [n] .keptBuildFailed .sequential
  refine ⟨cs, written, _, _, _, p', ?_, ht.failed hm hnoted⟩
  rw [tryLines_failed htaint hcomment hm hfail hroll, g.conclude_single hn]
  exact he

end Loops

theorem tryLines_course (hq : Quiet build) (h : Sited disk sites) (hs : s ∈ sites) (ns : List Nat) :
    ∀ (f : OpenFile) (p : Progress σ), f.draft.At disk s → disk.takes f.draft.path = true →
    f.draft.states = settle .deleted f.draft.written →
    p.disk = disk.relaid sites w s.loc f.draft.written → p.tainted = false →
    f.remaining.Perm ns → Loops build (disk.relaid sites w s.loc) ns f p := by
  induction ns with
  | nil =>
    intro f p hat _ hset hdisk _ hrem
    exact .nil hat hset hdisk hrem.eq_nil
  | cons n ns ih =>
    intro f p hat htakes hset hdisk htaint hrem
    have hn : n ∈ f.remaining := hrem.mem_iff.2 (by simp)
    have hrem' : (f.remaining.erase n).Perm ns := by
      have he := hrem.erase n
      rwa [List.erase_cons_head] at he
    by_cases hm : (mark f.draft.lines [n] f.draft.states).2 = []
    · exact .skipped htaint hn hm (ih _ _ hat htakes hset hdisk htaint hrem')
    have hcomment := comment_laid (w := w) h hs hat htakes hm
    rw [← hdisk] at hcomment
    have hdiskv : (Loops.judged build (disk.relaid sites w s.loc) n f p).2.disk =
        disk.relaid sites w s.loc (mark f.draft.lines [n] f.draft.states).1 :=
      Progress.verify_disk hq .sequential _
    have htaintv := (Loops.judged_adds build (disk.relaid sites w s.loc) n f p).tainted.trans htaint
    cases hpass : (Loops.judged build (disk.relaid sites w s.loc) n f p).1 with
    | true =>
      exact .passed htaint hm hcomment hpass
        (ih _ _ ((hat.wrote _).withStates _) htakes rfl hdiskv htaintv hrem')
    | false =>
      have hclean : .commentedOut ∉ f.draft.states :=
        hset ▸ commentedOut_not_mem_settle (by decide) _
      have hroll := Draft.rollback_mark (w := w) h hs hat htakes hclean hm
      rw [← hdiskv] at hroll
      exact .failed htaint hn hm hcomment hpass hroll (ih _ _ (hat.wrote _) htakes
        (settle_of_not_mem hclean).symm rfl htaintv hrem')

/-- A file between two batches: nothing is commented out, and the file is as the draft has it. -/
structure OpenFile.Calm (f : OpenFile) (disk : Disk) (s : Site) (states : List LineState) :
    Prop where
  sits : f.draft.At disk s
  holds : f.draft.states = states
  saved : f.draft.written = states
  settled : .commentedOut ∉ states

theorem OpenFile.flush_laid (h : Sited disk sites) (hs : s ∈ sites) {f : OpenFile} {p : Progress σ}
    (hat : f.draft.At disk s) (ht : disk.takes f.draft.path = true)
    (hdisk : p.disk = disk.relaid sites w s.loc f.draft.written) :
    f.flush p = ({ f with draft := f.draft.wrote f.draft.states },
      p.withDisk (disk.relaid sites w s.loc f.draft.states)) := by
  unfold OpenFile.flush
  split
  · rw [hdisk, Draft.flush_laid h hs hat ht]
  · rename_i hu
    have he : f.draft.states = f.draft.written := by simpa [Draft.unwritten] using hu
    have hd : f.draft.wrote f.draft.states = f.draft := by
      rw [he]
      have hw := hat.wrote_written
      rw [he] at hw
      exact hw
    rw [hd, he, ← hdisk, Progress.withDisk_self]

theorem judgeLines_flushed {f g g' : OpenFile} {p u u' : Progress σ} {cs : List Nat}
    (ht : tryLines build f.remaining [] f p = (cs, g, u)) (hcs : cs ≠ [])
    (hf : g.flush u = (g', u')) (hgone : ∀ n ∈ cs, n ∈ g'.draft.removedOnDisk) :
    judgeLines build f p = (g', g'.note cs .committed .sequential u') := by
  have hremoved : cs.filter (fun n => g'.draft.removedOnDisk.contains n) = cs :=
    List.filter_eq_self.2 fun n hn => List.contains_iff_mem.2 (hgone n hn)
  have hstuck : cs.filter (fun n => !g'.draft.removedOnDisk.contains n) = [] := by
    rw [List.filter_eq_nil_iff]
    intro n hn
    simp [hgone n hn]
  unfold judgeLines
  simp only [ht, hcs, if_false, hf, hremoved, hstuck]
  simp [OpenFile.note, OpenFile.outcomesAt]

theorem judgeLines_course (hq : Quiet build) (h : Sited disk sites) (hs : s ∈ sites) {f : OpenFile}
    {p : Progress σ} {states : List LineState} (hf : f.Calm disk s states)
    (htakes : disk.takes f.draft.path = true)
    (hdisk : p.disk = disk.relaid sites w s.loc states) (htaint : p.tainted = false) :
    ∃ (states' : List LineState) (ts : List Trial) (os : List Outcome) (p' : Progress σ),
      judgeLines build f p = (⟨f.draft.wrote states', f.candidates, []⟩, p') ∧
      p'.disk = disk.relaid sites w s.loc states' ∧ p.Adds build p' ts os ∧
      LineCourse f.draft.lines f.candidates (disk.relaid sites w s.loc) f.remaining states ts os
        states' := by
  have hset : f.draft.states = settle .deleted f.draft.written := by
    rw [hf.holds, hf.saved, settle_of_not_mem hf.settled]
  have hd : p.disk = disk.relaid sites w s.loc f.draft.written := by rw [hf.saved, hdisk]
  obtain ⟨cs, written, ts, kept, os, p', he, ht⟩ :=
    tryLines_course hq h hs f.remaining f p hf.sits htakes hset hd htaint (List.Perm.refl _) []
  have hcourse := ht.course
  rw [hf.holds] at hcourse
  rw [List.nil_append] at he
  by_cases hcs : cs = []
  · have hidle := ht.idle hcs (hf.holds.trans hf.saved.symm)
    refine ⟨written, ts, os, p', ?_, ht.disk, ht.adds.perm ?_, hidle ▸ hcourse⟩
    · unfold judgeLines
      rw [he]
      simp [hcs, hidle, Draft.wrote]
    · have hp := ht.outcomes
      rw [hcs] at hp
      simpa [outcomesOf] using hp.symm
  · let g : OpenFile :=
      ⟨{ f.draft.wrote written with states := settle .deleted written }, f.candidates, []⟩
    have hflush := OpenFile.flush_laid (f := g) h hs ((hf.sits.wrote written).withStates _)
      htakes ht.disk
    let g' : OpenFile := ⟨f.draft.wrote (settle .deleted written), f.candidates, []⟩
    let u := p'.withDisk (disk.relaid sites w s.loc (settle .deleted written))
    refine ⟨settle .deleted written, ts, os, g'.note cs .committed .sequential u, ?_, rfl, ?_,
      hcourse⟩
    · exact judgeLines_flushed he hcs hflush fun n hn => mem_linesIn_one.2 (ht.gone n hn)
    · exact ((ht.adds.onDisk u.disk).noted g' cs .committed .sequential).perm ht.outcomes.symm

theorem OpenFile.commit_laid (h : Sited disk sites) (hs : s ∈ sites) {f : OpenFile} {p : Progress σ}
    (hat : f.draft.At disk s) (ht : disk.takes f.draft.path = true)
    (hdisk : p.disk = disk.relaid sites w s.loc f.draft.written)
    {taken rest : List Nat} (htake : takeLines f.draft.pending f.remaining = (taken, rest))
    (snap : Snapshot) (tier : Tier) :
    f.commit snap tier p =
      (true, ⟨f.draft.wrote (settle .deleted f.draft.states), f.candidates, rest⟩,
        f.note taken .committed tier
          (p.withDisk (disk.relaid sites w s.loc (settle .deleted f.draft.states)))) := by
  unfold OpenFile.commit
  rw [hdisk, Draft.delete_laid h hs hat ht]
  let g : OpenFile := { f with draft := f.draft.wrote (settle .deleted f.draft.states) }
  exact congrArg (Prod.mk true) (g.conclude_taken htake .committed tier _)

namespace OpenFile.Calm

variable {f : OpenFile} {states : List LineState}

theorem wrote (hf : f.Calm disk s states) : f.draft.wrote states = f.draft := by
  have hw := hf.sits.wrote_written
  rw [hf.saved, hf.holds] at hw
  exact hw

/-- A file of which lines were commented out goes back to what it was, if it is still what the
draft has written; if not, it is given up. -/
theorem restore_onto (hf : f.Calm disk s states) (h : Sited disk sites) (hs : s ∈ sites)
    (ht : disk.takes f.draft.path = true) (marked : List LineState) {p : Progress σ} (hdisk : p.disk = disk.laid w sites)
    (remaining : List Nat) (tier : Tier) :
    OpenFile.restore ⟨f.draft.wrote marked, f.candidates, remaining⟩ f.draft.snapshot tier p =
      if IncludeSweep.digest (encode (renderLines s.lines (w s.loc))) =
          IncludeSweep.digest (encode (renderLines s.lines marked)) then
        (⟨f.draft, f.candidates, remaining⟩, p.withDisk (disk.relaid sites w s.loc states))
      else OpenFile.giveUp ⟨f.draft.wrote marked, f.candidates, remaining⟩ tier
        (p.taint f.draft.path) := by
  have hsnap : f.draft.snapshot.text = renderLines s.lines f.draft.snapshot.states := by
    rw [← hf.sits.lines]
    rfl
  have hsaved : f.draft.snapshot.states = states := hf.holds
  have hwrote : (f.draft.wrote marked).wrote states = f.draft := hf.wrote
  have hrevert := Draft.revert_onto h hs (hf.sits.wrote marked) ht w hsnap
  rw [hsaved, hwrote, ← hdisk, (hf.sits.wrote marked).digest] at hrevert
  change _ = if _ = IncludeSweep.digest (encode (renderLines s.lines marked)) then _ else _
    at hrevert
  unfold OpenFile.restore
  simp only [hrevert]
  by_cases hsame : IncludeSweep.digest (encode (renderLines s.lines (w s.loc))) =
      IncludeSweep.digest (encode (renderLines s.lines marked))
  · simp only [hsame, if_true]
  · simp only [hsame, if_false]
    rfl

theorem restore (hf : f.Calm disk s states) (h : Sited disk sites) (hs : s ∈ sites)
    (ht : disk.takes f.draft.path = true) {marked : List LineState} {p : Progress σ} (hdisk : p.disk = disk.relaid sites w s.loc marked)
    (remaining : List Nat) (tier : Tier) :
    OpenFile.restore ⟨f.draft.wrote marked, f.candidates, remaining⟩ f.draft.snapshot tier p =
      (⟨f.draft, f.candidates, remaining⟩, p.withDisk (disk.relaid sites w s.loc states)) := by
  rw [hf.restore_onto h hs ht marked hdisk, Function.update_self, if_pos rfl, Disk.relaid,
    Function.update_idem, Disk.relaid]

end OpenFile.Calm

theorem judgeFile_nothing {f : OpenFile} {p : Progress σ} (ht : p.tainted = false)
    (hm : (mark f.draft.lines f.remaining f.draft.states).2 = []) :
    judgeFile build f p = (false, { f with remaining := [] },
      f.note f.remaining .keptSkipped .perFile p) := by
  unfold judgeFile
  rw [comment_nothing hm]
  simp [ht, OpenFile.conclude, takeLines_self]

theorem judgeFile_commented {f : OpenFile} {p : Progress σ} {applied : List Nat} {draft : Draft}
    {tree : Disk} (ht : p.tainted = false)
    (hc : f.draft.comment p.disk f.remaining = .ok (applied, draft, tree)) (ha : applied ≠ []) :
    judgeFile build f p =
      let v := f.tryTogether build applied (p.withDisk tree)
      if v.1 then (f.onTrial draft applied).commit f.draft.snapshot .perFile v.2
      else (false, (f.onTrial draft applied).restore f.draft.snapshot .perFile v.2) := by
  unfold judgeFile
  simp only [ht, hc, ha, if_false, Bool.false_eq_true, OpenFile.conclude, f.takeLines_passedOver]
  rfl

theorem OpenFile.Calm.pending_onTrial {f : OpenFile} {states : List LineState}
    (hf : f.Calm disk s states) {draft : Draft} {marked : List LineState} {applied : List Nat}
    (hmark : mark f.draft.lines f.remaining states = (marked, applied)) :
    ∀ n ∈ linesIn .commentedOut 1 marked, n ∈ (f.onTrial draft applied).remaining := by
  intro n hn
  have hmem : n ∈ (mark f.draft.lines f.remaining states).2 := by
    rw [← mem_linesIn_mark hf.settled, hmark]
    exact hn
  have hin := (mem_mark.1 hmem).1
  rw [hmark] at hmem
  exact List.mem_filter.2 ⟨hin, List.contains_iff_mem.2 hmem⟩

/-- A batch of one file that was built: deleted if the build passed, put back if it failed. -/
theorem judgeFile_course (hq : Quiet build) (h : Sited disk sites) (hs : s ∈ sites) {f : OpenFile}
    {p : Progress σ} {states : List LineState} (hf : f.Calm disk s states)
    (htakes : disk.takes f.draft.path = true)
    (hdisk : p.disk = disk.relaid sites w s.loc states) (htaint : p.tainted = false)
    {marked : List LineState} {applied : List Nat}
    (hmark : mark f.draft.lines f.remaining states = (marked, applied)) (ha : applied ≠ []) :
    ∃ (v : Bool) (f' : OpenFile) (p' : Progress σ), judgeFile build f p = (v, f', p') ∧
      (v = true → p'.disk = disk.relaid sites w s.loc (settle .deleted marked) ∧
        p.Adds build p' [⟨some .perFile, disk.relaid sites w s.loc marked, true⟩]
          (outcomesOf f.candidates (f.remaining.filter fun n => !applied.contains n)
              .keptSkipped .perFile ++
            outcomesOf f.candidates (linesIn .commentedOut 1 marked) .committed .perFile)) ∧
      (v = false → f' = { f with remaining := f.remaining.filter fun n => applied.contains n } ∧
        p'.disk = disk.relaid sites w s.loc states ∧
        p.Adds build p' [⟨some .perFile, disk.relaid sites w s.loc marked, false⟩]
          (outcomesOf f.candidates (f.remaining.filter fun n => !applied.contains n)
            .keptSkipped .perFile)) := by
  have hm : (mark f.draft.lines f.remaining f.draft.states).2 ≠ [] := by
    rw [hf.holds, hmark]
    exact ha
  have hcomment := comment_laid (w := w) h hs hf.sits htakes hm
  rw [hf.saved, hf.holds, ← hdisk, hmark] at hcomment
  rw [judgeFile_commented htaint hcomment ha]
  let g := f.onTrial (f.draft.wrote marked) applied
  let v := f.tryTogether build applied (p.withDisk (disk.relaid sites w s.loc marked))
  have hadds : p.Adds build v.2 [⟨some .perFile, disk.relaid sites w s.loc marked, v.1⟩]
      (outcomesOf f.candidates (f.passedOver applied) .keptSkipped .perFile) :=
    (((Progress.adds_refl build p).onDisk _).noted f _ .keptSkipped .perFile).verified .perFile
  have hdiskv : v.2.disk = disk.relaid sites w s.loc marked := Progress.verify_disk hq .perFile _
  cases hpass : v.1 with
  | true =>
    have htake : OpenFile.takeLines g.draft.pending g.remaining = _ :=
      takeLines_subset (linesIn_nodup .commentedOut 1 marked) (hf.pending_onTrial hmark)
    have hcommit := OpenFile.commit_laid (f := g) h hs (hf.sits.wrote marked) htakes hdiskv htake
      f.draft.snapshot .perFile
    rw [hpass] at hadds
    exact ⟨true, _, _, (if_pos hpass).trans hcommit,
      fun _ => ⟨rfl, (hadds.onDisk _).noted g _ .committed .perFile⟩, nofun⟩
  | false =>
    have hrestore := hf.restore h hs htakes hdiskv g.remaining .perFile
    rw [hpass] at hadds
    have hfail : ¬ v.1 = true := by simp [hpass]
    exact ⟨false, _, _, (if_neg hfail).trans (congrArg (Prod.mk false) hrestore), nofun,
      fun _ => ⟨rfl, rfl, hadds.onDisk _⟩⟩

theorem OpenFile.giveUp_eq (f : OpenFile) (tier : Tier) (p : Progress σ) :
    f.giveUp tier p = ({ f with remaining := [] }, f.note f.remaining .keptIoFailure tier p) :=
  f.conclude_taken (takeLines_self f.remaining) .keptIoFailure tier p

theorem singleton_of_short {α : Type} {xs : List α} (hne : xs ≠ []) (hlen : xs.length < 2) :
    ∃ x, xs = [x] := by
  have hpos := List.length_pos_iff.2 hne
  exact List.length_eq_one_iff.1 (by omega)

theorem refineFile_givenUp {f : OpenFile} {p : Progress σ}
    (hlines : ∀ n, f.remaining = [n] → judgeLines build f p = f.giveUp .sequential p)
    (hfile : ¬ f.remaining.length < 2 → judgeFile build f p = (false, f.giveUp .perFile p)) :
    ∃ tier, (refineFile build f p).2 = f.note f.remaining .keptIoFailure tier p := by
  unfold refineFile
  by_cases hnil : f.remaining = []
  · refine ⟨.sequential, ?_⟩
    simp [hnil, OpenFile.note, OpenFile.outcomesAt]
  · rw [if_neg hnil]
    by_cases hlen : f.remaining.length < 2
    · obtain ⟨n, hn⟩ := singleton_of_short hnil hlen
      rw [if_pos hlen, hlines n hn, f.giveUp_eq]
      exact ⟨.sequential, rfl⟩
    · rw [if_neg hlen, hfile hlen, f.giveUp_eq]
      exact ⟨.perFile, rfl⟩

theorem judgeLines_givenUp {f : OpenFile} {p : Progress σ} {n : Nat} {ns : List Nat}
    (hrem : f.remaining = n :: ns)
    (h : p.tainted = true ∨ ∃ e, f.draft.comment p.disk [n] = .error e) :
    judgeLines build f p = f.giveUp .sequential p := by
  have htry : tryLines build f.remaining [] f p = ([], f.giveUp .sequential p) := by
    rw [hrem, tryLines]
    rcases h with ht | ⟨e, he⟩
    · simp [ht]
    · simp [he]
  unfold judgeLines
  rw [htry]
  rfl

theorem refineFile_tainted (build : Build σ) (f : OpenFile) {p : Progress σ}
    (ht : p.tainted = true) :
    ∃ tier, (refineFile build f p).2 = f.note f.remaining .keptIoFailure tier p := by
  refine refineFile_givenUp (fun n hrem => judgeLines_givenUp hrem (.inl ht)) fun _ => ?_
  simp [judgeFile, ht]

def Refines (refused : Prop) (build : Build σ) (disk : Disk) (sites : List Site) (w : Layout)
    (s : Site) (f : OpenFile) (p : Progress σ) (states : List LineState) : Prop :=
  ∃ (states' : List LineState) (ts : List Trial) (os : List Outcome),
    (refineFile build f p).2.disk = disk.relaid sites w s.loc states' ∧
    p.Adds build (refineFile build f p).2 ts os ∧
    FileCourse refused f.draft.lines f.candidates (disk.relaid sites w s.loc) f.remaining states ts
      os states'

theorem refineFile_takes (refused : Prop) (hq : Quiet build) (h : Sited disk sites) (hs : s ∈ sites)
    {f : OpenFile} {p : Progress σ} {states : List LineState} (hf : f.Calm disk s states)
    (htakes : disk.takes f.draft.path = true) (hdisk : p.disk = disk.relaid sites w s.loc states)
    (htaint : p.tainted = false) : Refines refused build disk sites w s f p states := by
  unfold Refines refineFile
  by_cases hnil : f.remaining = []
  · rw [if_pos hnil, hnil]
    exact ⟨states, [], [], hdisk, Progress.adds_refl build p, .byLine (by simp) (.done states)⟩
  rw [if_neg hnil]
  by_cases hlen : f.remaining.length < 2
  · rw [if_pos hlen]
    obtain ⟨states', ts, os, p', he, hd, hadds, hcourse⟩ := judgeLines_course hq h hs hf
      htakes hdisk htaint
    rw [he]
    exact ⟨states', ts, os, hd, hadds, .byLine hlen hcourse⟩
  rw [if_neg hlen]
  by_cases hm : (mark f.draft.lines f.remaining states).2 = []
  · rw [judgeFile_nothing htaint (by rw [hf.holds, hm])]
    exact ⟨states, [], _, hdisk,
      (Progress.adds_refl build p).noted f f.remaining .keptSkipped .perFile, .skipped hlen hm⟩
  obtain ⟨v, f', p', he, htrue, hfalse⟩ := judgeFile_course hq h hs hf htakes hdisk htaint rfl hm
  rw [he]
  cases v with
  | true =>
    obtain ⟨hd, hadds⟩ := htrue rfl
    exact ⟨_, _, _, hd, hadds, .passed hlen hm⟩
  | false =>
    obtain ⟨rfl, hd, hadds⟩ := hfalse rfl
    -- something was commented out, so something is left to be tried alone
    obtain ⟨n, hn⟩ := List.exists_mem_of_ne_nil _ hm
    have hleft : n ∈ f.remaining.filter fun n =>
        (mark f.draft.lines f.remaining states).2.contains n :=
      List.mem_filter.2 ⟨(mem_mark.1 hn).1, List.contains_iff_mem.2 hn⟩
    have hsome : (f.remaining.filter fun n =>
        (mark f.draft.lines f.remaining states).2.contains n).isEmpty = false := by
      rw [List.isEmpty_eq_false_iff]
      exact List.ne_nil_of_mem hleft
    simp only [hsome, Bool.or_false, Bool.false_eq_true, if_false]
    let g : OpenFile := { f with remaining := f.remaining.filter fun n =>
      (mark f.draft.lines f.remaining states).2.contains n }
    obtain ⟨states', ts, os, u, hj, hdj, haddsj, hcourse⟩ :=
      judgeLines_course (f := g) hq h hs ⟨hf.sits, hf.holds, hf.saved, hf.settled⟩
        htakes hd
        (hadds.tainted.trans htaint)
    rw [hj]
    exact ⟨states', _, _, hdj, hadds.trans haddsj, .failed hlen hm hcourse⟩

theorem refineFile_nothing {f : OpenFile} {p : Progress σ} (htaint : p.tainted = false)
    (hm : (mark f.draft.lines f.remaining f.draft.states).2 = []) (hne : f.remaining ≠ []) :
    (refineFile build f p).2 = f.note f.remaining .keptSkipped
      (if f.remaining.length < 2 then .sequential else .perFile) p := by
  unfold refineFile
  rw [if_neg hne]
  by_cases hlen : f.remaining.length < 2
  · obtain ⟨n, hn⟩ := singleton_of_short hne hlen
    rw [hn] at hm
    have htry : tryLines build f.remaining [] f p =
        ([], { f with remaining := [] }, f.note f.remaining .keptSkipped .sequential p) := by
      rw [hn, tryLines_skipped htaint (comment_nothing hm p.disk), f.conclude_single (by simp [hn]),
        hn]
      simp [tryLines]
    rw [if_pos hlen, if_pos hlen]
    unfold judgeLines
    rw [htry]
    rfl
  · rw [if_neg hlen, if_neg hlen, judgeFile_nothing htaint hm]
    rfl

/-- A file that the disk refuses to have written is given up, unless there is nothing to be written
in it. -/
theorem refineFile_refuses {refused : Prop} (hrefused : refused) (h : Sited disk sites)
    {f : OpenFile} {p : Progress σ} {states : List LineState} (hf : f.Calm disk s states)
    (htakes : disk.takes f.draft.path = false) (hdisk : p.disk = disk.relaid sites w s.loc states)
    (htaint : p.tainted = false) : Refines refused build disk sites w s f p states := by
  have hrefuses : p.disk.takes f.draft.path = false := by
    rw [hdisk, Disk.relaid, Disk.takes_alike (Disk.alike_laid h _), htakes]
  by_cases hnil : f.remaining = []
  · refine ⟨states, [], [], ?_, ?_, hnil ▸ .byLine (by simp) (.done states)⟩
    · simpa [refineFile, hnil] using hdisk
    · simpa [refineFile, hnil] using Progress.adds_refl build p
  by_cases hm : (mark f.draft.lines f.remaining f.draft.states).2 = []
  · rw [Refines, refineFile_nothing htaint hm hnil]
    rw [hf.holds] at hm
    refine ⟨states, [], _, hdisk, (Progress.adds_refl build p).noted f f.remaining .keptSkipped _, ?_⟩
    by_cases hlen : f.remaining.length < 2
    · obtain ⟨n, hn⟩ := singleton_of_short hnil hlen
      rw [hn] at hm ⊢
      have hline : LineCourse f.draft.lines f.candidates (disk.relaid sites w s.loc) [n] states []
          (outcomesOf f.candidates [n] .keptSkipped .sequential) states := by
        simpa using LineCourse.skipped hm (.done states)
      exact .byLine (by simp) (by simpa using hline)
    · rw [if_neg hlen]
      exact .skipped hlen hm
  · obtain ⟨tier, he⟩ : ∃ tier,
        (refineFile build f p).2 = f.note f.remaining .keptIoFailure tier p := by
      refine refineFile_givenUp (fun n hn => ?_) fun _ => ?_
      · exact judgeLines_givenUp hn (.inr (comment_of_not_takes hrefuses (hn ▸ hm)))
      · obtain ⟨e, he⟩ := comment_of_not_takes hrefuses hm
        simp [judgeFile, htaint, he]
    rw [Refines, he]
    exact ⟨states, [], _, hdisk, (Progress.adds_refl build p).noted f f.remaining .keptIoFailure tier,
      .givenUp hrefused tier⟩

theorem refineFile_course {refused : Prop} (hq : Quiet build) (h : Sited disk sites) (hs : s ∈ sites)
    {f : OpenFile} {p : Progress σ} {states : List LineState} (hf : f.Calm disk s states)
    (htakes : disk.takes f.draft.path = false → refused)
    (hdisk : p.disk = disk.relaid sites w s.loc states) (htaint : p.tainted = true → refused) :
    Refines refused build disk sites w s f p states := by
  cases ht : p.tainted with
  | true =>
    obtain ⟨tier, he⟩ := refineFile_tainted build f ht
    rw [Refines, he]
    exact ⟨states, [], _, hdisk, (Progress.adds_refl build p).noted f f.remaining .keptIoFailure tier,
      .givenUp (htaint ht) tier⟩
  | false =>
    cases hw : disk.takes f.draft.path with
    | true => exact refineFile_takes refused hq h hs hf hw hdisk ht
    | false => exact refineFile_refuses (htakes hw) h hf hw hdisk ht

end

end IncludeSweep
