import IncludeSweep.Proofs.Journal
import IncludeSweep.Proofs.UndisturbedRun
import IncludeSweep.Proofs.Writes

set_option autoImplicit false

/-! # The journal tells the run

Taking the deeds of its journal one after the other, from the opened plan on, gives the progress of
a run. What was noted and what was left behind can so be read off the journal. -/

namespace IncludeSweep

open Text Draft

variable {σ : Type}

/-- The deeds of a journal take the progress of a run from one state to another. -/
inductive Progress.Follows (build : Build σ) : Progress σ → Journal → Progress σ → Prop
  | done (p : Progress σ) : Follows build p [] p
  | built {p p' : Progress σ} {j : Journal} (tier : Tier)
      (rest : Follows build (p.verify build tier).2 j p') : Follows build p (.built tier :: j) p'
  | wrote {p p' : Progress σ} {j : Journal} {path : Path} {text : String} {disk : Disk}
      (h : p.disk.replaceFile path (encode text) = .ok disk)
      (rest : Follows build (p.withDisk disk) j p') : Follows build p (.wrote path text :: j) p'
  | stuck {p p' : Progress σ} {j : Journal} {path : Path}
      (rest : Follows build (p.taint path) j p') : Follows build p (.stuck path :: j) p'
  | unfinished {p p' : Progress σ} {j : Journal} {path : Path}
      (rest : Follows build { p with unrestored := p.unrestored ++ [path] } j p') :
      Follows build p (.unfinished path :: j) p'
  | noted {p p' : Progress σ} {j : Journal} (path : Path) {os : List Outcome}
      (rest : Follows build { p with outcomes := p.outcomes ++ os } j p') :
      Follows build p (.noted path os :: j) p'

namespace Progress

variable {build : Build σ} {p p' p'' : Progress σ} {j j' : Journal}

theorem Follows.trans (h : p.Follows build j p') (h' : p'.Follows build j' p'') :
    p.Follows build (j ++ j') p'' := by
  induction h with
  | done => exact h'
  | built tier _ ih => exact .built tier (ih h')
  | wrote hw _ ih => exact .wrote hw (ih h')
  | stuck _ ih => exact .stuck (ih h')
  | unfinished _ ih => exact .unfinished (ih h')
  | noted path _ ih => exact .noted path (ih h')

theorem Follows.outcomes (h : p.Follows build j p') :
    p'.outcomes = p.outcomes ++ outcomesIn j := by
  induction h with
  | done p => exact (List.append_nil _).symm
  | noted path _ ih => exact ih.trans (List.append_assoc _ _ _)
  | _ => assumption

theorem Follows.unrestored (h : p.Follows build j p') :
    p'.unrestored = p.unrestored ++ leftovers j := by
  induction h with
  | done p => exact (List.append_nil _).symm
  | stuck _ ih => exact ih.trans (List.append_assoc _ _ _)
  | unfinished _ ih => exact ih.trans (List.append_assoc _ _ _)
  | _ => assumption

end Progress

section
variable {build : Build σ} {d d' : Draft} {disk' : Disk} {p : Progress σ}

theorem Draft.Writes.follows {text : String} (h : d.Writes p.disk text disk') :
    p.Follows build [.wrote d.path text] (p.withDisk disk') :=
  .wrote h.replaced (.done _)

theorem Draft.comment_follows {ns applied : List Nat}
    (h : d.comment p.disk ns = .ok (applied, d', disk')) :
    p.Follows build (d'.changeDeeds applied) (p.withDisk disk') := by
  by_cases ha : applied = []
  · subst ha
    obtain ⟨_, rfl, rfl⟩ := comment_nothing_ok h
    exact .done _
  · obtain ⟨_, rfl, hw⟩ := comment_wrote h ha
    rw [changeDeeds, if_neg ha]
    exact hw.follows

theorem Draft.rollback_follows {back : List Nat}
    (h : d.rollback p.disk = .ok (back, d', disk')) :
    p.Follows build (d'.changeDeeds back) (p.withDisk disk') := by
  by_cases hp : d.pending = []
  · obtain ⟨rfl, rfl, rfl⟩ : [] = back ∧ d = d' ∧ p.disk = disk' := by
      simpa [Draft.rollback, hp] using h
    exact .done _
  · obtain ⟨rfl, rfl, hw⟩ := rollback_wrote h hp
    rw [changeDeeds, if_neg hp]
    exact hw.follows

end

namespace OpenFile

variable (build : Build σ) (f : OpenFile)

theorem note_follows (ns : List Nat) (r : Resolution) (tier : Tier) (p : Progress σ) :
    p.Follows build (f.noteDeeds ns r tier) (f.note ns r tier p) :=
  .noted _ (.done _)

theorem conclude_follows (ns : List Nat) (r : Resolution) (tier : Tier) (p : Progress σ) :
    p.Follows build (f.concludeDeeds ns r tier) (f.conclude ns r tier p).2 :=
  f.note_follows build _ r tier p

theorem giveUp_follows (tier : Tier) (p : Progress σ) :
    p.Follows build (f.giveUpDeeds tier) (f.giveUp tier p).2 :=
  f.conclude_follows build _ _ tier p

theorem restore_follows (s : Snapshot) (tier : Tier) (p : Progress σ) :
    p.Follows build (f.restoreDeeds s tier p) (f.restore s tier p).2 := by
  unfold restoreDeeds restore
  cases hr : f.draft.revert p.disk s with
  | ok r => exact (revert_wrote hr).2.follows
  | error e => exact .stuck (f.giveUp_follows build tier _)

theorem commit_follows (s : Snapshot) (tier : Tier) (p : Progress σ) :
    p.Follows build (f.commitDeeds s tier p) (f.commit s tier p).2.2 := by
  unfold commitDeeds commit
  cases hd : f.draft.delete p.disk with
  | ok r =>
    obtain ⟨ls, d, disk⟩ := r
    obtain ⟨_, rfl, hw⟩ := delete_wrote hd
    exact hw.follows.trans (conclude_follows build _ ls .committed tier (p.withDisk disk))
  | error e =>
    exact (f.restore_follows build s tier p).trans (giveUp_follows build _ tier _)

theorem flush_follows (p : Progress σ) : p.Follows build (f.flushDeeds p) (f.flush p).2 := by
  unfold flushDeeds flush
  split
  · cases hf : f.draft.flush p.disk with
    | ok r => exact (flush_wrote hf).2.follows
    | error e =>
      by_cases hu : p.unrestored.any f.draft.path.same = true
      · simp only [hu, if_true]
        exact .done p
      · simp only [hu, Bool.false_eq_true, if_false]
        exact .unfinished (.done _)
  · exact .done p

end OpenFile

section
variable (build : Build σ)

theorem stageAll_follows (fs : List OpenFile) (p : Progress σ) :
    p.Follows build (stageDeeds fs p) (stageAll fs p).2.2 := by
  induction fs generalizing p with
  | nil => exact .done p
  | cons f fs ih =>
    unfold stageDeeds stageAll
    cases hc : f.draft.comment p.disk f.remaining with
    | error e => exact f.giveUp_follows build .global p
    | ok commented =>
      obtain ⟨applied, d, disk⟩ := commented
      by_cases hlen : applied.length = f.remaining.length
      · simp only [hlen, if_true]
        exact (comment_follows hc).trans (ih (p.withDisk disk))
      · simp only [hlen, if_false, List.append_nil]
        exact comment_follows hc

theorem restoreAll_follows (staged : List Staged) (p : Progress σ) :
    p.Follows build (restoreAllDeeds staged p) (restoreAll staged p).2 := by
  induction staged generalizing p with
  | nil => exact .done p
  | cons st staged ih =>
    obtain ⟨f, _ | s⟩ := st
    · exact ih p
    · exact (f.restore_follows build s .global p).trans (ih _)

theorem commitAll_follows (staged : List Staged) (p : Progress σ) :
    p.Follows build (commitAllDeeds staged p) (commitAll staged p).2 := by
  induction staged generalizing p with
  | nil => exact .done p
  | cons st staged ih =>
    obtain ⟨f, _ | s⟩ := st
    · exact ih p
    · exact (f.commit_follows build s .global p).trans (ih _)

theorem judgeAll_follows (fs : List OpenFile) (p : Progress σ) :
    p.Follows build (judgeAllDeeds build fs p) (judgeAll build fs p).2 := by
  have hstaged := stageAll_follows build fs p
  unfold judgeAllDeeds judgeAll
  cases hall : (stageAll fs p).1 with
  | false =>
    simp only [hall, Bool.false_eq_true, if_false]
    exact hstaged.trans (restoreAll_follows build _ _)
  | true =>
    simp only [hall, if_true]
    refine hstaged.trans (.built .global ?_)
    cases ((stageAll fs p).2.2.verify build .global).1 with
    | false => exact restoreAll_follows build _ _
    | true => exact commitAll_follows build _ _

theorem OpenFile.tryTogether_follows {f : OpenFile} {p : Progress σ} {applied : List Nat}
    {d : Draft} {disk : Disk}
    (hc : f.draft.comment p.disk f.remaining = .ok (applied, d, disk)) :
    p.Follows build (f.tryTogetherDeeds d applied)
      (f.tryTogether build applied (p.withDisk disk)).2 :=
  ((comment_follows hc).trans (.noted d.path (.done _))).trans (.built .perFile (.done _))

theorem FileTrial.follows {f : OpenFile} {p : Progress σ} {j : Journal}
    {r : Bool × OpenFile × Progress σ} (h : FileTrial build f p j r) :
    p.Follows build j r.2.2 := by
  cases h with
  | gaveUp _ => exact f.giveUp_follows build .perFile p
  | @skipped d disk _ hc =>
    have hcomment : p.Follows build [] (p.withDisk disk) := comment_follows hc
    exact hcomment.trans (.noted d.path (.done _))
  | passed _ hc _ _ =>
    exact (OpenFile.tryTogether_follows build hc).trans
      (OpenFile.commit_follows build _ _ .perFile _)
  | failed _ hc _ _ =>
    exact (OpenFile.tryTogether_follows build hc).trans
      (OpenFile.restore_follows build _ _ .perFile _)

theorem LineTrials.follows {ns news : List Nat} {f f' : OpenFile} {p p' : Progress σ} {j : Journal}
    (h : LineTrials build ns f p j news f' p') : p.Follows build j p' := by
  induction h with
  | done f p => exact .done p
  | gaveUp h => exact OpenFile.giveUp_follows build _ .sequential _
  | skipped _ _ _ ih => exact (OpenFile.conclude_follows build _ _ _ .sequential _).trans ih
  | passed _ hc _ _ _ ih => exact (comment_follows hc).trans (.built .sequential ih)
  | failed _ hc _ _ hr _ ih =>
    exact (comment_follows hc).trans (.built .sequential (((rollback_follows hr).trans
      (OpenFile.conclude_follows build _ _ _ .sequential _)).trans ih))
  | stuck _ hc _ _ _ =>
    exact (comment_follows hc).trans (.built .sequential (.stuck
      (OpenFile.giveUp_follows build _ .sequential _)))

theorem judgeLines_follows (f : OpenFile) (p : Progress σ) :
    p.Follows build (judgeLinesDeeds build f p) (judgeLines build f p).2 := by
  obtain ⟨news, f', p', he, htrials⟩ := tryLines_trials build f.remaining [] f p
  unfold judgeLinesDeeds judgeLines
  rw [he, List.nil_append]
  by_cases hnil : news = []
  · simp only [hnil, if_true, List.append_nil]
    exact htrials.follows build
  · simp only [hnil, if_false]
    exact (htrials.follows build).trans (((f'.flush_follows build p').trans
      (OpenFile.note_follows build _ _ .committed .sequential _)).trans
      (OpenFile.note_follows build _ _ .keptIoFailure .sequential _))

theorem refineFile_follows (f : OpenFile) (p : Progress σ) :
    p.Follows build (refineFileDeeds build f p) (refineFile build f p).2 := by
  unfold refineFileDeeds refineFile
  by_cases hnil : f.remaining = []
  · simp only [hnil, if_true]
    exact .done p
  simp only [hnil, if_false]
  by_cases hlen : f.remaining.length < 2
  · simp only [hlen, if_true]
    exact judgeLines_follows build f p
  simp only [hlen, if_false]
  refine (judgeFile_trial build f p).follows.trans ?_
  split
  · exact .done _
  · exact judgeLines_follows build _ _

theorem refineAll_follows (fs : List OpenFile) (p : Progress σ) :
    p.Follows build (refineAllDeeds build fs p) (refineAll build fs p).2 := by
  induction fs generalizing p with
  | nil => exact .done p
  | cons f fs ih => exact (refineFile_follows build f p).trans (ih _)

theorem runPlan_follows (plan : Plan) (s : Session σ) :
    (s.opened plan).Follows build (runDeeds build plan s) (runPlan build plan s).2 := by
  unfold runDeeds runPlan
  rw [openAll_origins]
  by_cases hnil : (plan.filterMap (originOf s.world.disk)).map Origin.opened = []
  · simp only [hnil, if_true]
    exact .done _
  · simp only [hnil, if_false]
    exact (judgeAll_follows build _ (s.opened plan)).trans (refineAll_follows build _ _)

end

def Session.checked (build : Build σ) (s : Session σ) : Session σ :=
  if s.ready then s else (s.checkProject build).2

def runJournal (build : Build σ) (plan : Plan) (s : Session σ) : Journal :=
  runDeeds build plan (s.checked build)

theorem Session.checked_disk (build : Build σ) (s : Session σ) :
    (s.checked build).world.disk = s.openingDisk build := by
  unfold checked openingDisk
  split <;> rfl

theorem run_eq_some {build : Build σ} {plan : Plan} {s s' : Session σ} {report : Report}
    (h : run build plan s = (some report, s')) :
    report = (runPlan build plan (s.checked build)).2.report ∧
      s' = (runPlan build plan (s.checked build)).2.toSession := by
  unfold run Session.checked at *
  cases hr : s.ready with
  | true => simpa [hr, eq_comm] using h
  | false =>
    cases hc : (s.checkProject build).1 with
    | true => simpa [hr, hc, eq_comm] using h
    | false => simp [hr, hc] at h

theorem run_eq_none {build : Build σ} {plan : Plan} {s s' : Session σ}
    (h : run build plan s = (none, s')) : s' = s.checked build := by
  unfold run Session.checked at *
  cases hr : s.ready with
  | true => simp [hr] at h
  | false =>
    cases hc : (s.checkProject build).1 with
    | true => simp [hr, hc] at h
    | false => simpa [hr, hc, eq_comm] using h

/-- A run that reports is told by its journal. -/
theorem run_follows {build : Build σ} {plan : Plan} {s s' : Session σ} {report : Report}
    (h : run build plan s = (some report, s')) :
    ∃ p, ((s.checked build).opened plan).Follows build (runJournal build plan s) p ∧
      report = p.report ∧ s' = p.toSession := by
  obtain ⟨hreport, hs'⟩ := run_eq_some h
  exact ⟨_, runPlan_follows build plan (s.checked build), hreport, hs'⟩

section
variable (f : OpenFile)

theorem Draft.changeDeeds_within (d : Draft) (ns : List Nat) : Within [d.path] (d.changeDeeds ns) := by
  unfold changeDeeds
  split
  · exact within_nil _
  · exact .cons (by simp [Deed.path?]) (within_nil _)

namespace OpenFile

theorem noteDeeds_within (ns : List Nat) (r : Resolution) (tier : Tier) :
    Within [f.draft.path] (f.noteDeeds ns r tier) :=
  .cons (by simp [Deed.path?]) (within_nil _)

theorem restoreDeeds_within (s : Snapshot) (tier : Tier) (p : Progress σ) :
    Within [f.draft.path] (f.restoreDeeds s tier p) := by
  unfold restoreDeeds
  cases f.draft.revert p.disk s with
  | ok r => exact .cons (by simp [Deed.path?]) (within_nil _)
  | error e => exact .cons (by simp [Deed.path?]) (f.noteDeeds_within _ _ tier)

theorem restore_path (s : Snapshot) (tier : Tier) (p : Progress σ) :
    (f.restore s tier p).1.draft.path = f.draft.path := by
  unfold restore
  cases hr : f.draft.revert p.disk s with
  | ok r => exact (revert_ok hr).1
  | error e => rfl

theorem commitDeeds_within (s : Snapshot) (tier : Tier) (p : Progress σ) :
    Within [f.draft.path] (f.commitDeeds s tier p) := by
  unfold commitDeeds
  cases hd : f.draft.delete p.disk with
  | ok r =>
    obtain ⟨ls, d, disk⟩ := r
    obtain ⟨_, rfl, _⟩ := delete_wrote hd
    exact .cons (by simp [Deed.path?, Draft.wrote])
      (noteDeeds_within { f with draft := f.draft.wrote _ } _ _ tier)
  | error e =>
    refine (f.restoreDeeds_within s tier p).append ?_
    rw [← f.restore_path s tier p]
    exact noteDeeds_within _ _ _ tier

theorem commit_path (s : Snapshot) (tier : Tier) (p : Progress σ) :
    (f.commit s tier p).2.1.draft.path = f.draft.path := by
  unfold commit
  cases hd : f.draft.delete p.disk with
  | ok r =>
    obtain ⟨ls, d, disk⟩ := r
    obtain ⟨_, rfl, _⟩ := delete_wrote hd
    rfl
  | error e => exact f.restore_path s tier p

theorem flush_path (p : Progress σ) : (f.flush p).1.draft.path = f.draft.path := by
  unfold flush
  split
  · cases hf : f.draft.flush p.disk with
    | ok r => exact (flush_ok hf).1
    | error e => by_cases h : p.unrestored.any f.draft.path.same <;> simp [h]
  · rfl

theorem flushDeeds_within (p : Progress σ) : Within [f.draft.path] (f.flushDeeds p) := by
  unfold flushDeeds
  split
  · cases f.draft.flush p.disk with
    | ok r => exact .cons (by simp [Deed.path?]) (within_nil _)
    | error e =>
      by_cases h : p.unrestored.any f.draft.path.same
      · simp only [h, if_true]
        exact within_nil _
      · simp only [h, Bool.false_eq_true, if_false]
        exact .cons (by simp [Deed.path?]) (within_nil _)
  · exact within_nil _

end OpenFile

end

theorem OpenFile.tryTogetherDeeds_within (f : OpenFile) (d : Draft) (applied : List Nat) :
    Within [d.path] (f.tryTogetherDeeds d applied) :=
  ((d.changeDeeds_within applied).append ((f.onTrial d applied).noteDeeds_within _ _ .perFile)).append
    (.cons (by simp [Deed.path?]) (within_nil _))

theorem FileTrial.within {build : Build σ} {f : OpenFile} {p : Progress σ} {j : Journal}
    {r : Bool × OpenFile × Progress σ} (h : FileTrial build f p j r) :
    r.2.1.draft.path = f.draft.path ∧ Within [f.draft.path] j := by
  cases h with
  | gaveUp _ => exact ⟨rfl, f.noteDeeds_within _ _ .perFile⟩
  | @skipped d disk _ hc =>
    have hpath := (comment_ok hc).2.1
    exact ⟨hpath, hpath ▸ OpenFile.noteDeeds_within { f with draft := d } _ _ .perFile⟩
  | @passed applied d disk _ hc _ _ =>
    rw [← (comment_ok hc).2.1]
    exact ⟨OpenFile.commit_path _ _ .perFile _,
      (f.tryTogetherDeeds_within d applied).append (OpenFile.commitDeeds_within _ _ .perFile _)⟩
  | @failed applied d disk _ hc _ _ =>
    rw [← (comment_ok hc).2.1]
    exact ⟨OpenFile.restore_path _ _ .perFile _,
      (f.tryTogetherDeeds_within d applied).append (OpenFile.restoreDeeds_within _ _ .perFile _)⟩

theorem LineTrials.within {build : Build σ} {ns news : List Nat} {f f' : OpenFile}
    {p p' : Progress σ} {j : Journal} (h : LineTrials build ns f p j news f' p') :
    f'.draft.path = f.draft.path ∧ Within [f.draft.path] j := by
  induction h with
  | done f p => exact ⟨rfl, within_nil _⟩
  | @gaveUp n ns f p _ => exact ⟨rfl, f.noteDeeds_within _ _ .sequential⟩
  | @skipped n ns news f f' p p' d disk j _ _ _ ih =>
    exact ⟨ih.1, (f.noteDeeds_within _ _ .sequential).append ih.2⟩
  | @passed n ns applied news f f' p p' d disk j _ hc _ _ _ ih =>
    rw [← (comment_ok hc).2.1]
    exact ⟨ih.1, (d.changeDeeds_within applied).append (.cons (by simp [Deed.path?]) ih.2)⟩
  | @failed n ns applied back news f f' p p' d d' disk disk' j _ hc _ _ hr _ ih =>
    have hpath : d'.path = f.draft.path := (rollback_ok hr).1.trans (comment_ok hc).2.1
    have hnotes := fun ns r => OpenFile.noteDeeds_within { f with draft := d' } ns r .sequential
    have hback := d'.changeDeeds_within back
    have hrest := ih.2
    change Within [d'.path] j at hrest
    change ∀ ns r, Within [d'.path] _ at hnotes
    refine ⟨ih.1.trans hpath, ?_⟩
    rw [hpath, ← (comment_ok hc).2.1] at hnotes hback hrest
    rw [← (comment_ok hc).2.1]
    exact (d.changeDeeds_within applied).append (.cons (by simp [Deed.path?])
      ((hback.append (hnotes _ _)).append hrest))
  | @stuck n ns applied f p d disk e _ hc _ _ _ =>
    rw [← (comment_ok hc).2.1]
    exact ⟨rfl, (d.changeDeeds_within applied).append (.cons (by simp [Deed.path?])
      (.cons (by simp [Deed.path?])
        (OpenFile.noteDeeds_within { f with draft := d } _ _ .sequential)))⟩

theorem judgeLinesDeeds_within (build : Build σ) (f : OpenFile) (p : Progress σ) :
    Within [f.draft.path] (judgeLinesDeeds build f p) := by
  obtain ⟨news, f', p', he, htrials⟩ := tryLines_trials build f.remaining [] f p
  obtain ⟨hpath, hwithin⟩ := htrials.within
  unfold judgeLinesDeeds
  rw [he]
  refine hwithin.append ?_
  split
  · exact within_nil _
  rw [← hpath]
  have hnotes := fun ns r => (f'.flush p').1.noteDeeds_within ns r .sequential
  rw [f'.flush_path p'] at hnotes
  exact ((f'.flushDeeds_within p').append (hnotes _ _)).append (hnotes _ _)

theorem refineFileDeeds_within (build : Build σ) (f : OpenFile) (p : Progress σ) :
    Within [f.draft.path] (refineFileDeeds build f p) := by
  unfold refineFileDeeds
  split
  · exact within_nil _
  · split
    · exact judgeLinesDeeds_within build f p
    · obtain ⟨hpath, hwithin⟩ := (judgeFile_trial build f p).within
      refine hwithin.append ?_
      split
      · exact within_nil _
      · rw [← hpath]
        exact judgeLinesDeeds_within build _ _

end IncludeSweep
