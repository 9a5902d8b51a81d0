import Mathlib.Data.List.Perm.Basic
import IncludeSweep.Proofs.FinalContent
import IncludeSweep.Proofs.Justified
import IncludeSweep.Proofs.ReportOrder

set_option autoImplicit false

/-! # Every candidate has one outcome

A run owes an outcome to each candidate of its plan. Whatever a step of the run does, and whatever
fails in it, the candidates it resolves and those it leaves are the ones that were due before. In
the end nothing is due. -/

namespace IncludeSweep

open Text Draft

variable {σ : Type}

def OpenFile.due (f : OpenFile) : List Candidate :=
  candidatesAt f.candidates f.remaining

def dueOf (fs : List OpenFile) : List Candidate :=
  fs.flatMap OpenFile.due

/-- Of the candidates that were due, those no longer due have got an outcome in some tier. -/
def Progress.Clears (p p' : Progress σ) (due left : List Candidate) : Prop :=
  ∃ os, p'.outcomes = p.outcomes ++ os ∧ (os.map Outcome.candidate ++ left).Perm due ∧
    ∀ o ∈ os, o.tier ≠ none

namespace Progress

variable {p p' p'' : Progress σ} {due due' left left' last : List Candidate}

theorem clears_refl (p : Progress σ) (due : List Candidate) : p.Clears p due due :=
  ⟨[], by simp, .refl _, by simp⟩

theorem Clears.trans (h : p.Clears p' due left) (h' : p'.Clears p'' left last) :
    p.Clears p'' due last := by
  obtain ⟨os, hos, hdue, htier⟩ := h
  obtain ⟨os', hos', hdue', htier'⟩ := h'
  refine ⟨os ++ os', ?_, ?_, ?_⟩
  · rw [hos', hos, List.append_assoc]
  · rw [List.map_append, List.append_assoc]
    exact (hdue'.append_left _).trans hdue
  · intro o ho
    rcases List.mem_append.1 ho with ho | ho
    · exact htier o ho
    · exact htier' o ho

theorem Clears.perm (h : p.Clears p' due left) (hdue : due.Perm due') (hleft : left.Perm left') :
    p.Clears p' due' left' := by
  obtain ⟨os, hos, hsplit, htier⟩ := h
  exact ⟨os, hos, ((hleft.symm.append_left _).trans hsplit).trans hdue, htier⟩

theorem Clears.beside (h : p.Clears p' due left) (others : List Candidate) :
    p.Clears p' (due ++ others) (left ++ others) := by
  obtain ⟨os, hos, hsplit, htier⟩ := h
  refine ⟨os, hos, ?_, htier⟩
  rw [← List.append_assoc]
  exact hsplit.append_right others

theorem Clears.after (h : p.Clears p' due left) (others : List Candidate) :
    p.Clears p' (others ++ due) (others ++ left) :=
  (h.beside others).perm List.perm_append_comm List.perm_append_comm

theorem clears_note (f : OpenFile) (ns : List Nat) (r : Resolution) (tier : Tier)
    (p : Progress σ) (left : List Candidate) :
    p.Clears (f.note ns r tier p) (candidatesAt f.candidates ns ++ left) left := by
  refine ⟨outcomesOf f.candidates ns r tier, rfl, ?_, ?_⟩
  · rw [outcomesOf_eq, List.map_map]
    exact .of_eq (congrArg (· ++ left) (List.map_id _))
  · rw [outcomesOf_eq]
    intro o ho
    obtain ⟨c, _, rfl⟩ := List.mem_map.1 ho
    simp

end Progress

theorem candidatesAt_append (candidates : List Candidate) (ns ms : List Nat) :
    candidatesAt candidates (ns ++ ms) = candidatesAt candidates ns ++ candidatesAt candidates ms :=
  List.filterMap_append

theorem candidatesAt_perm (candidates : List Candidate) {ns ms : List Nat} (h : ns.Perm ms) :
    (candidatesAt candidates ns).Perm (candidatesAt candidates ms) :=
  h.filterMap _

theorem takeLines_perm (ns remaining : List Nat) :
    ((OpenFile.takeLines ns remaining).1 ++ (OpenFile.takeLines ns remaining).2).Perm
      remaining := by
  induction ns generalizing remaining with
  | nil => exact .refl _
  | cons n ns ih =>
    unfold OpenFile.takeLines
    split
    · rename_i hn
      exact ((ih _).cons n).trans (List.perm_cons_erase hn).symm
    · exact ih remaining

namespace OpenFile

theorem due_eq_nil {f : OpenFile} (h : f.remaining = []) : f.due = [] := by
  rw [due, h]
  rfl

theorem conclude_clears (f : OpenFile) (ns : List Nat) (r : Resolution) (tier : Tier)
    (p : Progress σ) :
    p.Clears (f.conclude ns r tier p).2 f.due (f.conclude ns r tier p).1.due := by
  refine (Progress.clears_note f _ r tier p _).perm ?_ (.refl _)
  rw [due, conclude, ← candidatesAt_append]
  exact candidatesAt_perm _ (takeLines_perm ns f.remaining)

theorem giveUp_clears (f : OpenFile) (tier : Tier) (p : Progress σ) :
    p.Clears (f.giveUp tier p).2 f.due [] := by
  rw [← due_eq_nil (f.giveUp_remaining tier p)]
  exact f.conclude_clears _ _ tier p

theorem restore_clears (f : OpenFile) (s : Snapshot) (tier : Tier) (p : Progress σ) :
    p.Clears (f.restore s tier p).2 f.due (f.restore s tier p).1.due := by
  unfold restore
  cases f.draft.revert p.disk s with
  | ok r => exact p.clears_refl _
  | error e => exact f.conclude_clears _ _ tier (p.taint f.draft.path)

theorem commit_clears (f : OpenFile) (s : Snapshot) (tier : Tier) (p : Progress σ) :
    p.Clears (f.commit s tier p).2.2 f.due (f.commit s tier p).2.1.due := by
  unfold commit
  cases f.draft.delete p.disk with
  | ok r => exact conclude_clears { f with draft := r.2.1 } r.1 _ tier (p.withDisk r.2.2)
  | error e => exact (f.restore_clears s tier p).trans (conclude_clears _ _ _ tier _)

theorem commit_remaining {f : OpenFile} (h : f.draft.pending.Perm f.remaining) (s : Snapshot)
    (tier : Tier) (p : Progress σ) : (f.commit s tier p).2.1.remaining = [] := by
  unfold commit
  cases hd : f.draft.delete p.disk with
  | error e => exact giveUp_remaining _ tier _
  | ok r =>
    obtain ⟨ls, d, disk⟩ := r
    obtain ⟨rfl, _⟩ := delete_ok hd
    have htake : OpenFile.takeLines f.draft.pending f.remaining =
        (f.draft.pending, f.remaining.diff f.draft.pending) :=
      takeLines_subset (linesIn_nodup _ _ _) fun n hn => h.mem_iff.1 hn
    have hlength := (takeLines_perm f.draft.pending f.remaining).length_eq
    rw [htake, List.length_append, h.length_eq, Nat.add_eq_left] at hlength
    simp only [conclude, htake]
    exact List.length_eq_zero_iff.1 hlength

end OpenFile

theorem OpenFile.due_first {f : OpenFile} {n : Nat} (hn : n ∈ f.remaining) :
    (candidatesAt f.candidates [n] ++ candidatesAt f.candidates (f.remaining.erase n)).Perm
      f.due := by
  rw [← candidatesAt_append]
  exact candidatesAt_perm _ (List.perm_cons_erase hn).symm

theorem LineTrials.clears {build : Build σ} {ns news : List Nat} {f f' : OpenFile}
    {p p' : Progress σ} {j : Journal} (h : LineTrials build ns f p j news f' p')
    (hrem : f.remaining.Perm ns) :
    f'.candidates = f.candidates ∧ p.Clears p' f.due (candidatesAt f.candidates news) := by
  induction h with
  | done f p =>
    rw [OpenFile.due, hrem.eq_nil]
    exact ⟨rfl, p.clears_refl _⟩
  | @gaveUp n ns f p _ => exact ⟨rfl, f.giveUp_clears .sequential p⟩
  | @skipped n ns news f f' p p' d disk j ht hc rest ih =>
    obtain ⟨hn, hrem'⟩ := List.cons_perm_iff_perm_erase.1 hrem.symm
    rw [f.conclude_single hn] at ih
    obtain ⟨hcand, hclears⟩ := ih hrem'.symm
    exact ⟨hcand, ((Progress.clears_note f [n] _ _ p _).perm (f.due_first hn) (.refl _)).trans
      hclears⟩
  | @passed n ns applied news f f' p p' d disk j ht hc ha hv rest ih =>
    obtain ⟨hn, hrem'⟩ := List.cons_perm_iff_perm_erase.1 hrem.symm
    obtain ⟨hcand, hclears⟩ := ih hrem'.symm
    refine ⟨hcand, ?_⟩
    have hrest := (hclears.after (candidatesAt f.candidates [n])).perm (f.due_first hn) (.refl _)
    rwa [← candidatesAt_append] at hrest
  | @failed n ns applied back news f f' p p' d d' disk disk' j ht hc ha hv hr rest ih =>
    obtain ⟨hn, hrem'⟩ := List.cons_perm_iff_perm_erase.1 hrem.symm
    rw [OpenFile.conclude_single { f with draft := d' } hn] at ih
    obtain ⟨hcand, hclears⟩ := ih hrem'.symm
    have hnoted := Progress.clears_note f [n] .keptBuildFailed .sequential
      (((p.withDisk disk).verify build .sequential).2.withDisk disk')
      (candidatesAt f.candidates (f.remaining.erase n))
    exact ⟨hcand, (hnoted.perm (f.due_first hn) (.refl _)).trans hclears⟩
  | @stuck n ns applied f p d disk e ht hc ha hv hr =>
    exact ⟨rfl, OpenFile.giveUp_clears { f with draft := d } .sequential
      (((p.withDisk disk).verify build .sequential).2.taint d.path)⟩

theorem OpenFile.flush_outcomes (f : OpenFile) (p : Progress σ) :
    (f.flush p).2.outcomes = p.outcomes := by
  unfold OpenFile.flush
  split
  · cases f.draft.flush p.disk with
    | ok r => rfl
    | error e => by_cases h : p.unrestored.any f.draft.path.same <;> simp [h]
  · rfl

theorem judgeLines_clears (build : Build σ) (f : OpenFile) (p : Progress σ) :
    p.Clears (judgeLines build f p).2 f.due [] := by
  obtain ⟨news, f', p', he, htrials⟩ := tryLines_trials build f.remaining [] f p
  obtain ⟨hcand, hclears⟩ := htrials.clears (.refl _)
  unfold judgeLines
  rw [he, List.nil_append]
  by_cases hnil : news = []
  · simp only [hnil, if_true]
    rwa [hnil] at hclears
  · simp only [hnil, if_false]
    generalize hgone : (f'.flush p').1.draft.removedOnDisk = gone
    have hflush : p.Clears (f'.flush p').2 f.due
        (candidatesAt f.candidates news) := by
      obtain ⟨os, hos, hrest⟩ := hclears
      exact ⟨os, (f'.flush_outcomes p').trans hos, hrest⟩
    have hcand' := (f'.flush_candidates p').trans hcand
    have hsplit := candidatesAt_perm f.candidates
      (List.filter_append_perm (fun n => gone.contains n) news)
    rw [candidatesAt_append, ← hcand'] at hsplit
    rw [← hcand'] at hflush
    have hnoted := (hflush.perm (.refl _) hsplit.symm).trans
      (Progress.clears_note (f'.flush p').1 _ .committed .sequential _ _)
    have hnoted' := Progress.clears_note (f'.flush p').1
      (news.filter fun n => !gone.contains n) .keptIoFailure .sequential
      ((f'.flush p').1.note (news.filter fun n => gone.contains n) .committed
        .sequential (f'.flush p').2) []
    rw [List.append_nil] at hnoted'
    exact hnoted.trans hnoted'

theorem OpenFile.due_onTrial (f : OpenFile) (d : Draft) (applied : List Nat) :
    (candidatesAt f.candidates (f.passedOver applied) ++ (f.onTrial d applied).due).Perm f.due := by
  have hsplit := List.filter_append_perm (fun n => !applied.contains n) f.remaining
  simp only [Bool.not_not] at hsplit
  rw [OpenFile.due, OpenFile.onTrial, ← candidatesAt_append]
  exact candidatesAt_perm _ hsplit

theorem OpenFile.tryTogether_clears (f : OpenFile) (build : Build σ) (d : Draft)
    (applied : List Nat) (p : Progress σ) (disk : Disk) :
    p.Clears (f.tryTogether build applied (p.withDisk disk)).2 f.due (f.onTrial d applied).due :=
  (Progress.clears_note f (f.passedOver applied) .keptSkipped .perFile (p.withDisk disk) _).perm
    (f.due_onTrial d applied) (.refl _)

theorem FileTrial.clears {build : Build σ} {f : OpenFile} {p : Progress σ} {j : Journal}
    {r : Bool × OpenFile × Progress σ} (h : FileTrial build f p j r) :
    p.Clears r.2.2 f.due r.2.1.due := by
  cases h with
  | gaveUp _ => exact f.conclude_clears _ _ .perFile p
  | @skipped d disk _ _ =>
    refine (Progress.clears_note f f.remaining .keptSkipped .perFile (p.withDisk disk) []).perm ?_
      (.of_eq (OpenFile.due_eq_nil rfl).symm)
    rw [List.append_nil]
    exact .refl _
  | passed _ _ _ _ =>
    exact (f.tryTogether_clears build _ _ p _).trans (OpenFile.commit_clears _ _ .perFile _)
  | failed _ _ _ _ =>
    exact (f.tryTogether_clears build _ _ p _).trans (OpenFile.restore_clears _ _ .perFile _)

theorem FileTrial.resolved {build : Build σ} {f : OpenFile} {p : Progress σ} {j : Journal}
    {r : Bool × OpenFile × Progress σ} (h : FileTrial build f p j r) {g : Origin}
    (hf : f.Waiting g) (hr : r.1 = true) : r.2.1.remaining = [] := by
  cases h with
  | gaveUp _ => exact absurd hr Bool.false_ne_true
  | skipped _ _ => exact absurd hr Bool.false_ne_true
  | @passed applied d disk ht hc ha hv =>
    obtain ⟨happlied, _, _, hstates, _⟩ := comment_ok hc
    -- what is commented out is what has been applied, and that is all that is left
    have hpending : d.pending.Perm (f.onTrial d applied).remaining := by
      refine (List.perm_ext_iff_of_nodup (linesIn_nodup _ _ _) (hf.nodup.filter _)).2 fun n => ?_
      rw [hstates, mem_linesIn_mark hf.settled, ← happlied, List.mem_filter, List.contains_iff_mem]
      exact ⟨fun hn => ⟨(mem_mark.1 (happlied ▸ hn)).1, hn⟩, And.right⟩
    exact OpenFile.commit_remaining hpending f.draft.snapshot .perFile _
  | failed _ _ _ _ => exact absurd hr Bool.false_ne_true

theorem refineFile_clears (build : Build σ) {g : Origin} {f : OpenFile} (hf : f.Rests g)
    (p : Progress σ) : p.Clears (refineFile build f p).2 f.due [] := by
  unfold refineFile
  by_cases hnil : f.remaining = []
  · simp only [hnil, if_true]
    rw [OpenFile.due_eq_nil hnil]
    exact p.clears_refl _
  have hwait := hf.resolve_left hnil
  simp only [hnil, if_false]
  by_cases hlen : f.remaining.length < 2
  · simp only [hlen, if_true]
    exact judgeLines_clears build f p
  simp only [hlen, if_false]
  have hbatch := (judgeFile_trial build f p).clears
  by_cases hdone : ((judgeFile build f p).1 || (judgeFile build f p).2.1.remaining.isEmpty) = true
  · simp only [hdone, if_true]
    have hrem : (judgeFile build f p).2.1.remaining = [] := by
      rcases Bool.or_eq_true_iff.1 hdone with hv | hempty
      · exact (judgeFile_trial build f p).resolved hwait hv
      · exact List.isEmpty_iff.1 hempty
    rwa [OpenFile.due_eq_nil hrem] at hbatch
  · simp only [hdone]
    exact hbatch.trans (judgeLines_clears build _ _)

theorem refineAll_clears (build : Build σ) {fs : List OpenFile} {gs : List Origin}
    (h : List.Forall₂ OpenFile.Rests fs gs) (p : Progress σ) :
    p.Clears (refineAll build fs p).2 (dueOf fs) [] := by
  induction h generalizing p with
  | nil => exact p.clears_refl _
  | @cons f g fs gs hf _ ih =>
    have hfirst := (refineFile_clears build hf p).beside (dueOf fs)
    exact hfirst.trans (ih _)

theorem stageAll_clears (fs : List OpenFile) (p : Progress σ) :
    p.Clears (stageAll fs p).2.2 (dueOf fs) (dueOf ((stageAll fs p).2.1.map Prod.fst)) := by
  induction fs generalizing p with
  | nil => exact p.clears_refl _
  | cons f fs ih =>
    have hidle : dueOf ((fs.map fun f => ((f, none) : Staged)).map Prod.fst) = dueOf fs := by
      rw [List.map_map]
      exact congrArg dueOf (List.map_id _)
    unfold stageAll
    cases f.draft.comment p.disk f.remaining with
    | error e =>
      change p.Clears (f.giveUp .global p).2 (f.due ++ dueOf fs) ((f.giveUp .global p).1.due ++
        dueOf ((fs.map fun f => ((f, none) : Staged)).map Prod.fst))
      rw [hidle]
      exact (f.conclude_clears f.remaining .keptIoFailure .global p).beside (dueOf fs)
    | ok commented =>
      obtain ⟨applied, d, disk⟩ := commented
      by_cases hlen : applied.length = f.remaining.length
      · simp only [hlen, if_true]
        exact (ih (p.withDisk disk)).after f.due
      · simp only [hlen, if_false]
        change p.Clears (p.withDisk disk) (f.due ++ dueOf fs) (f.due ++
          dueOf ((fs.map fun f => ((f, none) : Staged)).map Prod.fst))
        rw [hidle]
        exact p.clears_refl _

theorem restoreAll_clears (staged : List Staged) (p : Progress σ) :
    p.Clears (restoreAll staged p).2 (dueOf (staged.map Prod.fst))
      (dueOf (restoreAll staged p).1) := by
  induction staged generalizing p with
  | nil => exact p.clears_refl _
  | cons st staged ih =>
    obtain ⟨f, _ | snap⟩ := st
    · exact (ih p).after f.due
    · exact ((f.restore_clears snap .global p).beside _).trans ((ih _).after _)

theorem commitAll_clears (staged : List Staged) (p : Progress σ) :
    p.Clears (commitAll staged p).2 (dueOf (staged.map Prod.fst))
      (dueOf (commitAll staged p).1) := by
  induction staged generalizing p with
  | nil => exact p.clears_refl _
  | cons st staged ih =>
    obtain ⟨f, _ | snap⟩ := st
    · exact (ih p).after f.due
    · exact ((f.commit_clears snap .global p).beside _).trans ((ih _).after _)

theorem judgeAll_clears (build : Build σ) (fs : List OpenFile) (p : Progress σ) :
    p.Clears (judgeAll build fs p).2 (dueOf fs) (dueOf (judgeAll build fs p).1) := by
  have hstaged := stageAll_clears fs p
  unfold judgeAll
  cases hall : (stageAll fs p).1 with
  | false =>
    simp only [hall, Bool.false_eq_true, if_false]
    exact hstaged.trans (restoreAll_clears _ _)
  | true =>
    simp only [hall, if_true]
    cases ((stageAll fs p).2.2.verify build .global).1 with
    | false => exact hstaged.trans (restoreAll_clears _ _)
    | true => exact hstaged.trans (commitAll_clears _ _)

/-- Each entry of a plan is opened or has outcomes without a tier. -/
theorem unopened_perm (disk : Disk) (plan : Plan) :
    ((plan.flatMap (unopened disk)).map Outcome.candidate ++
        (plan.filterMap (originOf disk)).flatMap fun g => g.entry.candidates).Perm
      (plan.flatMap FileCandidates.candidates) := by
  induction plan with
  | nil => exact .refl _
  | cons e plan ih =>
    rw [List.flatMap_cons, List.flatMap_cons, List.map_append, List.append_assoc]
    cases ho : originOf disk e with
    | some g =>
      obtain ⟨rfl, _, ht⟩ := originOf_some ho
      have hnone : unopened disk g.entry = [] := by simp [unopened, ht]
      rw [hnone, List.map_nil, List.nil_append, List.filterMap_cons_some ho, List.flatMap_cons]
      exact (List.perm_append_comm_assoc _ _ _).trans (ih.append_left _)
    | none =>
      rw [List.filterMap_cons_none ho]
      have hall : (unopened disk e).map Outcome.candidate = e.candidates := by
        cases ht : disk.readText e.path with
        | error cause => simp [unopened, ht, Function.comp_def]
        | ok text =>
          have hnil : e.candidates = [] := by simpa [originOf, ht] using ho
          simp [unopened, ht, hnil]
      rw [hall]
      exact ih.append_left _

theorem runPlan_clears (build : Build σ) {plan : Plan} (hlines : ∀ e ∈ plan, e.lines.Nodup)
    (s : Session σ) :
    (s.opened plan).Clears (runPlan build plan s).2
      ((plan.filterMap (originOf s.world.disk)).flatMap fun g => g.entry.candidates) [] := by
  have hwait := opened_waiting s.world.disk hlines
  have hdue : dueOf ((plan.filterMap (originOf s.world.disk)).map Origin.opened) =
      (plan.filterMap (originOf s.world.disk)).flatMap fun g => g.entry.candidates := by
    rw [dueOf, List.flatMap_map]
    refine List.flatMap_congr fun g hg => ?_
    obtain ⟨e, he, ho⟩ := List.mem_filterMap.1 hg
    obtain ⟨rfl, _, _⟩ := originOf_some ho
    exact candidatesAt_lines (hlines _ he)
  rw [← hdue]
  unfold runPlan
  rw [openAll_origins]
  by_cases hnil : (plan.filterMap (originOf s.world.disk)).map Origin.opened = []
  · simp only [hnil, if_true]
    exact Progress.clears_refl _ _
  · simp only [hnil, if_false]
    exact (judgeAll_clears build _ (s.opened plan)).trans
      (refineAll_clears build (judgeAll_rests build hwait (s.opened plan)) _)

theorem removed_by_tier {os : List Outcome} (h : ∀ o ∈ os, o.isCommitted = true → o.tier ≠ none) :
    (os.filter Outcome.isCommitted).length =
      (os.filter fun o => o.isCommitted && o.tier == some .global).length +
      (os.filter fun o => o.isCommitted && o.tier == some .perFile).length +
      (os.filter fun o => o.isCommitted && o.tier == some .sequential).length := by
  induction os with
  | nil => rfl
  | cons o os ih =>
    have hrest := ih fun o' ho' => h o' (List.mem_cons_of_mem o ho')
    cases hc : o.isCommitted with
    | false => simpa [hc] using hrest
    | true =>
      obtain ⟨tier, ht⟩ := Option.ne_none_iff_exists'.1 (h o (by simp) hc)
      cases tier <;> simp [hc, ht] <;> omega

structure Accounted (disk : Disk) (plan : Plan) (os : List Outcome) : Prop where
  complete : (os.map Outcome.candidate).Perm (plan.flatMap FileCandidates.candidates)
  untiered : (os.filter fun o => o.tier.isNone).Perm (plan.flatMap (unopened disk))

theorem Accounted.committed_tier {disk : Disk} {plan : Plan} {os : List Outcome}
    (h : Accounted disk plan os) {o : Outcome} (ho : o ∈ os) (hc : o.isCommitted = true) :
    o.tier ≠ none := by
  intro hnone
  have hmem := h.untiered.mem_iff.1 (List.mem_filter.2 ⟨ho, by simp [hnone]⟩)
  obtain ⟨e, _, hun⟩ := List.mem_flatMap.1 hmem
  simp [Outcome.isCommitted, (resolution_of_unopened hun).1] at hc

theorem run_accounted {build : Build σ} {plan : Plan} {s s' : Session σ} {report : Report}
    (hlines : ∀ e ∈ plan, e.lines.Nodup) (hrun : run build plan s = (some report, s')) :
    Accounted (s.openingDisk build) plan report.outcomes := by
  rcases run_checked build plan s with ⟨u, he, hdisk, _⟩ | ⟨hnone, _⟩
  · rw [he, Prod.mk.injEq, Option.some.injEq] at hrun
    obtain ⟨rfl, rfl⟩ := hrun
    rw [← hdisk]
    obtain ⟨os, hos, hdue, htier⟩ := runPlan_clears build hlines u
    have hsort : (runPlan build plan u).2.report.outcomes.Perm
        (plan.flatMap (unopened u.world.disk) ++ os) :=
      (stableSort_perm Outcome.le _).trans (.of_eq hos)
    constructor
    · refine (hsort.map Outcome.candidate).trans ?_
      rw [List.append_nil] at hdue
      rw [List.map_append]
      exact (hdue.append_left _).trans (unopened_perm u.world.disk plan)
    · refine (hsort.filter _).trans ?_
      have hopened : (plan.flatMap (unopened u.world.disk)).filter (fun o => o.tier.isNone) =
          plan.flatMap (unopened u.world.disk) := by
        rw [List.filter_eq_self]
        intro o ho
        obtain ⟨e, _, hun⟩ := List.mem_flatMap.1 ho
        simp [(resolution_of_unopened hun).2]
      have hothers : os.filter (fun o => o.tier.isNone) = [] := by
        rw [List.filter_eq_nil_iff]
        intro o ho
        simpa using htier o ho
      rw [List.filter_append, hopened, hothers, List.append_nil]
  · rw [hrun] at hnone
    exact absurd hnone (by simp)

theorem run_sorted {build : Build σ} {plan : Plan} {s s' : Session σ} {report : Report}
    (hrun : run build plan s = (some report, s')) :
    report.outcomes.Pairwise fun o o' => o.le o' = true := by
  rcases run_checked build plan s with ⟨u, he, _⟩ | ⟨hnone, _⟩
  · rw [he, Prod.mk.injEq, Option.some.injEq] at hrun
    obtain ⟨rfl, rfl⟩ := hrun
    exact stableSort_sorted Outcome.le_total (fun _ _ _ => Outcome.le_trans) _
  · rw [hrun] at hnone
    exact absurd hnone (by simp)

/-- A report has one outcome for each candidate of the plan, in the order of paths and lines. Each
removal is counted at one tier, and only candidates of files that could not be opened have none. -/
theorem candidates_accounted_for {build : Build σ} {plan : Plan} {s : Session σ}
    (hlines : ∀ e ∈ plan, e.lines.Nodup) (hready : ∀ t ∈ s.preflight build, t.passed = true) :
    ∃ report s', run build plan s = (some report, s') ∧
      (report.outcomes.map Outcome.candidate).Perm (plan.flatMap FileCandidates.candidates) ∧
      report.outcomes.Pairwise (fun o o' =>
        o.candidate.path.order o'.candidate.path = .lt ∨
          o.candidate.path.order o'.candidate.path = .eq ∧
            o.candidate.line ≤ o'.candidate.line) ∧
      report.removed + report.kept = (plan.flatMap FileCandidates.candidates).length ∧
      report.removed =
        report.removedAt .global + report.removedAt .perFile + report.removedAt .sequential ∧
      (report.outcomes.filter fun o => o.tier.isNone).Perm
        (plan.flatMap (unopened (s.openingDisk build))) := by
  obtain ⟨report, s', hrun⟩ := reports_of_preflight hready plan
  have hall := run_accounted hlines hrun
  refine ⟨report, s', hrun, hall.complete, ?_, ?_, ?_, hall.untiered⟩
  · exact (run_sorted hrun).imp fun h => Outcome.le_iff.1 h
  · have hle : report.removed ≤ report.outcomes.length := List.length_filter_le _ _
    rw [← hall.complete.length_eq, List.length_map, Report.kept]
    omega
  · exact removed_by_tier fun o ho hc => hall.committed_tier ho hc

theorem candidates_accounted_for_disturbing :
    ∃ report s,
      run disturbing.toBuild overlapping (Session.start ⟨twoFiles, 0⟩) = (some report, s) ∧
      (report.outcomes.map Outcome.candidate).Perm
        (overlapping.flatMap FileCandidates.candidates) ∧
      report.removed + report.kept = 3 ∧
      (report.outcomes.filter fun o => o.tier.isNone).Perm
        [⟨⟨⟨"c.cc"⟩, 1, "#include <z.h>"⟩, .keptIoFailure, none⟩] := by
  have hlines : ∀ e ∈ overlapping, e.lines.Nodup := by decide
  have hready : ∀ t ∈ (Session.start ⟨twoFiles, 0⟩).preflight disturbing.toBuild,
      t.passed = true := by decide
  have hmissing : overlapping.flatMap
      (unopened ((Session.start ⟨twoFiles, 0⟩).openingDisk disturbing.toBuild)) =
      [⟨⟨⟨"c.cc"⟩, 1, "#include <z.h>"⟩, .keptIoFailure, none⟩] := by decide
  obtain ⟨report, s, hrun, hperm, _, hcount, _, htier⟩ := candidates_accounted_for hlines hready
  rw [hmissing] at htier
  exact ⟨report, s, hrun, hperm, hcount, htier⟩

end IncludeSweep
