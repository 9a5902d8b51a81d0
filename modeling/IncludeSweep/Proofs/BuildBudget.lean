import Mathlib.Algebra.GroupWithZero.Nat
import IncludeSweep.Proofs.Accounting
import IncludeSweep.Proofs.Taint

set_option autoImplicit false

/-! # What a run costs

Builds are the expensive part of a run. The batch of all files costs one build. What it leaves costs
one build for each file with several candidates, and at most one for each candidate. A batch of all
files that passes leaves nothing. Each build is counted once, and nothing but the build before the
first edit goes uncounted. -/

namespace IncludeSweep

open Text Draft

variable {σ : Type}

def Plan.budget (plan : Plan) : Nat :=
  1 + (plan.filter fun e => 2 ≤ e.candidates.length).length +
    (plan.flatMap FileCandidates.candidates).length

def Deed.tier? : Deed → Option Tier
  | .built tier => some tier
  | _ => none

def builtTiers (j : Journal) : List Tier :=
  j.filterMap Deed.tier?

@[simp] theorem builtTiers_nil : builtTiers [] = [] := rfl

@[simp] theorem builtTiers_built (tier : Tier) (j : Journal) :
    builtTiers (.built tier :: j) = tier :: builtTiers j := rfl

@[simp] theorem builtTiers_append (j j' : Journal) :
    builtTiers (j ++ j') = builtTiers j ++ builtTiers j' :=
  List.filterMap_append

theorem Unbuilt.builtTiers {j : Journal} (h : Unbuilt j) : builtTiers j = [] := by
  refine List.filterMap_eq_nil_iff.2 fun d hd => ?_
  cases d with
  | built tier => exact absurd hd (h tier)
  | _ => rfl

namespace Progress

variable {build : Build σ} {p p' : Progress σ} {j : Journal}

/-- Every build of the journal, and no other, is among the trials. -/
theorem Follows.spent (h : p.Follows build j p') :
    ∃ ts, p'.trials = p.trials ++ ts ∧ ts.map Trial.tier = (builtTiers j).map some := by
  induction h with
  | done p => exact ⟨[], by simp, rfl⟩
  | @built p p' j tier _ ih =>
    obtain ⟨ts, htrials, htiers⟩ := ih
    refine ⟨⟨some tier, p.disk, (p.verify build tier).1⟩ :: ts, ?_, by simp [htiers]⟩
    rw [htrials, List.append_cons]
    rfl
  | _ => assumption

theorem Follows.counted (h : p.Follows build j p') :
    p'.verifications = p.verifications + (builtTiers j).length := by
  induction h with
  | done p => rfl
  | @built p p' j tier _ ih =>
    rw [ih, builtTiers_built, List.length_cons]
    change p.verifications + 1 + _ = _
    omega
  | _ => assumption

theorem Follows.called {calls : σ → Nat}
    (hcalls : ∀ w : World σ, calls (build w).2.outside = calls w.outside + 1)
    (h : p.Follows build j p') :
    calls p'.world.outside = calls p.world.outside + (builtTiers j).length := by
  induction h with
  | done p => rfl
  | @built p p' j tier _ ih =>
    have hcall : calls (p.verify build tier).2.world.outside = calls p.world.outside + 1 :=
      hcalls p.world
    rw [ih, hcall, builtTiers_built, List.length_cons]
    omega
  | _ => assumption

end Progress

/-- At most so many builds, none of them of the batch of all files. -/
structure Costs (j : Journal) (n : Nat) : Prop where
  bound : (builtTiers j).length ≤ n
  finer : .global ∉ builtTiers j

namespace Costs

variable {j j' : Journal} {n m : Nat}

theorem mono (h : Costs j n) (hnm : n ≤ m) : Costs j m :=
  ⟨Nat.le_trans h.bound hnm, h.finer⟩

theorem append (h : Costs j n) (h' : Costs j' m) : Costs (j ++ j') (n + m) := by
  constructor
  · rw [builtTiers_append, List.length_append]
    exact Nat.add_le_add h.bound h'.bound
  · rw [builtTiers_append, List.mem_append]
    exact fun hmem => hmem.elim h.finer h'.finer

theorem built {tier : Tier} (htier : tier ≠ .global) (h : Costs j n) :
    Costs (.built tier :: j) (n + 1) :=
  ⟨Nat.succ_le_succ h.bound, fun hmem =>
    (List.mem_cons.1 hmem).elim (fun he => htier he.symm) h.finer⟩

end Costs

theorem Unbuilt.costs {j : Journal} (h : Unbuilt j) (n : Nat) : Costs j n :=
  ⟨by simp [h.builtTiers], by simp [h.builtTiers]⟩

theorem Unbuilt.append_costs {j j' : Journal} (h : Unbuilt j) {n : Nat} (h' : Costs j' n) :
    Costs (j ++ j') n :=
  ((h.costs 0).append h').mono (Nat.le_of_eq (Nat.zero_add n))

theorem unbuilt_stuck {j : Journal} (h : Unbuilt j) (path : Path) : Unbuilt (.stuck path :: j) :=
  fun tier hmem => (List.mem_cons.1 hmem).elim (by simp) (h tier)

section
variable {build : Build σ}

/-- Each line costs at most one build. -/
theorem LineTrials.costs {ns news : List Nat} {f f' : OpenFile} {p p' : Progress σ} {j : Journal}
    (h : LineTrials build ns f p j news f' p') : Costs j ns.length := by
  induction h with
  | done f p => exact unbuilt_nil.costs _
  | gaveUp _ => exact (OpenFile.noteDeeds_unbuilt _ _ _ .sequential).costs _
  | skipped _ _ _ ih =>
    exact ((OpenFile.noteDeeds_unbuilt _ _ _ .sequential).append_costs ih).mono (Nat.le_succ _)
  | passed _ _ _ _ _ ih =>
    exact (Draft.changeDeeds_unbuilt _ _).append_costs (ih.built (by simp))
  | failed _ _ _ _ _ _ ih =>
    refine (Draft.changeDeeds_unbuilt _ _).append_costs (Costs.built (by simp) ?_)
    exact ((Draft.changeDeeds_unbuilt _ _).append
      (OpenFile.noteDeeds_unbuilt _ _ _ .sequential)).append_costs ih
  | stuck _ _ _ _ _ =>
    refine (Draft.changeDeeds_unbuilt _ _).append_costs (Costs.built (by simp) ?_)
    exact (unbuilt_stuck (OpenFile.noteDeeds_unbuilt _ _ _ .sequential) _).costs _

variable (build)

theorem judgeLinesDeeds_costs (f : OpenFile) (p : Progress σ) :
    Costs (judgeLinesDeeds build f p) f.remaining.length := by
  obtain ⟨news, f', p', he, htrials⟩ := tryLines_trials build f.remaining [] f p
  unfold judgeLinesDeeds
  rw [he]
  refine (htrials.costs.append (Unbuilt.costs ?_ 0)).mono (Nat.le_of_eq (Nat.add_zero _))
  split
  · exact unbuilt_nil
  · exact ((f'.flushDeeds_unbuilt p').append (OpenFile.noteDeeds_unbuilt _ _ _ .sequential)).append
      (OpenFile.noteDeeds_unbuilt _ _ _ .sequential)

end

namespace OpenFile

variable (f : OpenFile)

theorem conclude_length (ns : List Nat) (r : Resolution) (tier : Tier) (p : Progress σ) :
    (f.conclude ns r tier p).1.remaining.length ≤ f.remaining.length := by
  have hsplit := (takeLines_perm ns f.remaining).length_eq
  rw [List.length_append] at hsplit
  exact Nat.le_of_add_left_le (Nat.le_of_eq hsplit)

theorem restore_length (s : Snapshot) (tier : Tier) (p : Progress σ) :
    (f.restore s tier p).1.remaining.length ≤ f.remaining.length := by
  unfold restore
  cases f.draft.revert p.disk s with
  | ok r => exact Nat.le_refl _
  | error e => exact f.conclude_length _ _ tier _

theorem commit_length (s : Snapshot) (tier : Tier) (p : Progress σ) :
    (f.commit s tier p).2.1.remaining.length ≤ f.remaining.length := by
  unfold commit
  cases f.draft.delete p.disk with
  | ok r => exact conclude_length { f with draft := r.2.1 } _ _ tier _
  | error e => exact Nat.le_trans (conclude_length _ _ _ tier _) (f.restore_length s tier p)

end OpenFile

theorem OpenFile.tryTogetherDeeds_costs (f : OpenFile) (d : Draft) (applied : List Nat) :
    Costs (f.tryTogetherDeeds d applied) 1 :=
  ((d.changeDeeds_unbuilt applied).append (OpenFile.noteDeeds_unbuilt _ _ _ .perFile)).append_costs
    (Costs.built (by simp) (unbuilt_nil.costs 0))

theorem FileTrial.costs {build : Build σ} {f : OpenFile} {p : Progress σ} {j : Journal}
    {r : Bool × OpenFile × Progress σ} (h : FileTrial build f p j r) :
    Costs j 1 ∧ r.2.1.remaining.length ≤ f.remaining.length := by
  cases h with
  | gaveUp _ =>
    exact ⟨(f.noteDeeds_unbuilt _ _ .perFile).costs 1, f.conclude_length _ _ .perFile p⟩
  | skipped _ _ => exact ⟨(OpenFile.noteDeeds_unbuilt _ _ _ .perFile).costs 1, Nat.zero_le _⟩
  | @passed applied d disk _ _ _ _ =>
    exact ⟨(f.tryTogetherDeeds_costs d applied).append
        ((OpenFile.commitDeeds_unbuilt _ _ .perFile _).costs 0),
      Nat.le_trans (OpenFile.commit_length _ _ .perFile _) (List.length_filter_le _ _)⟩
  | @failed applied d disk _ _ _ _ =>
    exact ⟨(f.tryTogetherDeeds_costs d applied).append
        ((OpenFile.restoreDeeds_unbuilt _ _ .perFile _).costs 0),
      Nat.le_trans (OpenFile.restore_length _ _ .perFile _) (List.length_filter_le _ _)⟩

def finerCost (candidates : Nat) : Nat :=
  (if 2 ≤ candidates then 1 else 0) + candidates

theorem finerCost_mono {n m : Nat} (h : n ≤ m) : finerCost n ≤ finerCost m := by
  unfold finerCost
  split <;> split <;> omega

theorem refineFileDeeds_costs (build : Build σ) (f : OpenFile) (p : Progress σ) :
    Costs (refineFileDeeds build f p) (finerCost f.remaining.length) := by
  unfold refineFileDeeds
  split
  · exact unbuilt_nil.costs _
  split
  · exact (judgeLinesDeeds_costs build f p).mono (Nat.le_add_left _ _)
  · rename_i hlen
    have htwo : finerCost f.remaining.length = 1 + f.remaining.length := by
      rw [finerCost, if_pos (Nat.le_of_not_lt hlen)]
    rw [htwo]
    obtain ⟨hbatch, hlength⟩ := (judgeFile_trial build f p).costs
    refine hbatch.append ?_
    split
    · exact unbuilt_nil.costs _
    · exact (judgeLinesDeeds_costs build _ _).mono hlength

theorem OpenFile.Rests.length_le {f : OpenFile} {g : Origin} (h : f.Rests g) :
    f.remaining.length ≤ g.entry.candidates.length := by
  rcases h with hnil | hwait
  · simp [hnil]
  · have hsub := List.subperm_of_subset hwait.nodup hwait.listed
    simpa [FileCandidates.lines] using hsub.length_le

theorem refineAllDeeds_costs (build : Build σ) {fs : List OpenFile} {gs : List Origin}
    (h : List.Forall₂ OpenFile.Rests fs gs) (p : Progress σ) :
    Costs (refineAllDeeds build fs p)
      (gs.map fun g => finerCost g.entry.candidates.length).sum := by
  induction h generalizing p with
  | nil => exact unbuilt_nil.costs _
  | @cons f g fs gs hf _ ih =>
    exact ((refineFileDeeds_costs build f p).mono (finerCost_mono hf.length_le)).append (ih _)

theorem finerCosts_le_budget (disk : Disk) (plan : Plan) :
    1 + ((plan.filterMap (originOf disk)).map fun g =>
      finerCost g.entry.candidates.length).sum ≤ plan.budget := by
  induction plan with
  | nil => simp [Plan.budget]
  | cons e plan ih =>
    have hentry : finerCost e.candidates.length + Plan.budget plan = Plan.budget (e :: plan) := by
      simp only [Plan.budget, finerCost, List.filter_cons, List.flatMap_cons, List.length_append,
        decide_eq_true_eq]
      by_cases htwo : 2 ≤ e.candidates.length
      · rw [if_pos htwo, if_pos htwo, List.length_cons]
        omega
      · rw [if_neg htwo, if_neg htwo]
        omega
    rw [← hentry]
    cases ho : originOf disk e with
    | none =>
      rw [List.filterMap_cons_none ho]
      omega
    | some g =>
      obtain ⟨rfl, _, _⟩ := originOf_some ho
      rw [List.filterMap_cons_some ho, List.map_cons, List.sum_cons]
      omega

theorem stageAll_full {fs : List OpenFile} {gs : List Origin}
    (h : List.Forall₂ OpenFile.Waiting fs gs) {p : Progress σ} (hall : (stageAll fs p).1 = true) :
    ∀ st ∈ (stageAll fs p).2.1, (∃ s, st.2 = some s) ∧ st.1.draft.pending.Perm st.1.remaining := by
  induction h generalizing p with
  | nil => simp [stageAll]
  | @cons f g fs gs hf _ ih =>
    obtain ⟨applied, d, disk, hc, hlen, hrest, he⟩ := stageAll_cons hall
    obtain ⟨happlied, _, _, hstates, _⟩ := comment_ok hc
    rw [he]
    refine List.forall_mem_cons.2 ⟨⟨⟨_, rfl⟩, ?_⟩, ih hrest⟩
    -- as many lines were commented out as there are
    have hsub := mark_sublist f.draft.lines f.remaining f.draft.states
    rw [← happlied] at hsub
    have hperm := linesIn_mark_perm f.draft.lines f.remaining hf.settled
    rwa [← hstates, ← happlied, hsub.eq_of_length hlen] at hperm

theorem commitAll_resolves {staged : List Staged}
    (h : ∀ st ∈ staged, (∃ s, st.2 = some s) ∧ st.1.draft.pending.Perm st.1.remaining)
    (p : Progress σ) : ∀ f ∈ (commitAll staged p).1, f.remaining = [] := by
  induction staged generalizing p with
  | nil => simp [commitAll]
  | cons st staged ih =>
    obtain ⟨⟨⟨s, hs⟩, hpending⟩, hrest⟩ := List.forall_mem_cons.1 h
    obtain ⟨f, snap⟩ := st
    change snap = some s at hs
    subst hs
    exact List.forall_mem_cons.2 ⟨OpenFile.commit_remaining hpending s .global p, ih hrest _⟩

theorem refineAllDeeds_resolved (build : Build σ) {fs : List OpenFile}
    (h : ∀ f ∈ fs, f.remaining = []) (p : Progress σ) : refineAllDeeds build fs p = [] := by
  induction fs generalizing p with
  | nil => rfl
  | cons f fs ih =>
    obtain ⟨hf, hfs⟩ := List.forall_mem_cons.1 h
    rw [refineAllDeeds, ih hfs, refineFileDeeds, if_pos hf, List.append_nil]

/-- The batch has a passing build, and so leaves nothing to the finer tiers. -/
theorem judgeAll_passed {build : Build σ} {fs : List OpenFile} {gs : List Origin}
    (h : List.Forall₂ OpenFile.Waiting fs gs) {p : Progress σ} (hall : (stageAll fs p).1 = true)
    (hv : ((stageAll fs p).2.2.verify build .global).1 = true) :
    ∀ f ∈ (judgeAll build fs p).1, f.remaining = [] := by
  have hfull := commitAll_resolves (stageAll_full h hall)
    ((stageAll fs p).2.2.verify build .global).2
  simpa only [judgeAll, hall, hv, if_true] using hfull

theorem builtTiers_judgeAllDeeds (build : Build σ) (fs : List OpenFile) (p : Progress σ) :
    builtTiers (judgeAllDeeds build fs p) = if (stageAll fs p).1 then [.global] else [] := by
  unfold judgeAllDeeds
  rw [builtTiers_append, (stageDeeds_unbuilt fs p).builtTiers, List.nil_append]
  cases (stageAll fs p).1 with
  | false => exact (restoreAllDeeds_unbuilt _ _).builtTiers
  | true =>
    simp only [if_true, builtTiers_built]
    split
    · rw [(commitAllDeeds_unbuilt _ _).builtTiers]
    · rw [(restoreAllDeeds_unbuilt _ _).builtTiers]

structure WithinBudget (plan : Plan) (ts : List Trial) (n : Nat) : Prop where
  counted : ts.length = n
  tiered : ∀ t ∈ ts, t.tier ≠ none
  bounded : n ≤ plan.budget
  once : ∀ t ∈ ts, t.tier = some .global → t.passed = true → n = 1

theorem tiersWithinBudget (build : Build σ) {plan : Plan} {fs : List OpenFile} {gs : List Origin}
    (hwait : List.Forall₂ OpenFile.Waiting fs gs)
    (hbudget : 1 + (gs.map fun g => finerCost g.entry.candidates.length).sum ≤ plan.budget)
    (p : Progress σ) :
    ∃ ts, (refineAll build (judgeAll build fs p).1 (judgeAll build fs p).2).2.trials =
        p.trials ++ ts ∧
      WithinBudget plan ts (builtTiers (judgeAllDeeds build fs p ++
        refineAllDeeds build (judgeAll build fs p).1 (judgeAll build fs p).2)).length := by
  have hbatch := judgeAll_built build fs p
  have hcosts := refineAllDeeds_costs build (judgeAll_rests build hwait p) (judgeAll build fs p).2
  obtain ⟨ts, htrials, htiers⟩ := (refineAll_follows build (judgeAll build fs p).1
    (judgeAll build fs p).2).spent
  have hlength : ts.length = (builtTiers (refineAllDeeds build (judgeAll build fs p).1
      (judgeAll build fs p).2)).length := by
    simpa using congrArg List.length htiers
  have hfiner : ∀ t ∈ ts, t.tier ≠ none ∧ t.tier ≠ some .global := by
    intro t ht
    obtain ⟨tier, hmem, htier⟩ := List.mem_map.1 (htiers ▸ List.mem_map_of_mem ht)
    rw [← htier]
    refine ⟨by simp, fun hglobal => hcosts.finer ?_⟩
    rwa [Option.some.inj hglobal] at hmem
  rw [builtTiers_append, builtTiers_judgeAllDeeds, htrials, hbatch, List.append_assoc]
  refine ⟨_, rfl, ?_⟩
  cases hall : (stageAll fs p).1 with
  | false =>
    simp only [Bool.false_eq_true, if_false, List.nil_append]
    have hbound := hcosts.bound
    exact ⟨hlength, fun t ht => (hfiner t ht).1, by omega,
      fun t ht hglobal => absurd hglobal (hfiner t ht).2⟩
  | true =>
    simp only [if_true, List.singleton_append, List.length_cons]
    have hbound := hcosts.bound
    refine ⟨by rw [List.length_cons, hlength], ?_, by omega, ?_⟩
    · exact List.forall_mem_cons.2 ⟨by simp, fun t ht => (hfiner t ht).1⟩
    · refine List.forall_mem_cons.2 ⟨fun _ hv => ?_,
        fun t ht hglobal => absurd hglobal (hfiner t ht).2⟩
      rw [refineAllDeeds_resolved build (judgeAll_passed hwait hall hv)]
      rfl

theorem runPlan_withinBudget (build : Build σ) {plan : Plan} (hlines : ∀ e ∈ plan, e.lines.Nodup)
    (s : Session σ) :
    ∃ ts, (runPlan build plan s).2.trials = s.trials ++ ts ∧
      WithinBudget plan ts (builtTiers (runDeeds build plan s)).length := by
  unfold runPlan runDeeds
  rw [openAll_origins]
  by_cases hnil : (plan.filterMap (originOf s.world.disk)).map Origin.opened = []
  · simp only [hnil, if_true]
    exact ⟨[], (List.append_nil _).symm, rfl, by simp, by simp, by simp⟩
  · simp only [hnil, if_false]
    exact tiersWithinBudget build (opened_waiting s.world.disk hlines)
      (finerCosts_le_budget s.world.disk plan) (s.opened plan)

/-- A run of a new session makes one build before the first edit, and none after it if that one
fails. If it passes, the run makes as many builds as it reports, within the budget of its plan, and
only one if the batch of all files passes; an outside that counts its calls agrees. -/
theorem builds_within_budget {build : Build σ} {plan : Plan} (hlines : ∀ e ∈ plan, e.lines.Nodup)
    (w : World σ) :
    ((build w).1 = true → ∃ report s' ts,
      run build plan (Session.start w) = (some report, s') ∧
      s'.trials = ⟨none, w.disk, true⟩ :: ts ∧ WithinBudget plan ts report.verifications ∧
      ∀ calls : σ → Nat, (∀ w', calls (build w').2.outside = calls w'.outside + 1) →
        calls s'.world.outside = calls w.outside + 1 + report.verifications) ∧
    ((build w).1 = false → ∃ s', run build plan (Session.start w) = (none, s') ∧
      s'.trials = [⟨none, w.disk, false⟩] ∧ s'.world = (build w).2) := by
  constructor
  · intro hpass
    obtain ⟨report, s', hrun⟩ := reports_of_pass (s := Session.start w) hpass plan
    obtain ⟨rfl, rfl⟩ := run_eq_some hrun
    obtain ⟨ts, htrials, hbudget⟩ :=
      runPlan_withinBudget build hlines ((Session.start w).checked build)
    have hfollows := runPlan_follows build plan ((Session.start w).checked build)
    have hstart : ((Session.start w).checked build).trials = [⟨none, w.disk, true⟩] := by
      simp [Session.checked, Session.start, Session.checkProject, Session.runBuild, hpass]
    have hcounted := hfollows.counted
    change _ = 0 + _ at hcounted
    rw [Nat.zero_add] at hcounted
    rw [← hcounted] at hbudget
    refine ⟨_, _, ts, hrun, ?_, hbudget, fun calls hcalls => ?_⟩
    · rw [htrials, hstart]
      rfl
    · have hfirst : calls ((Session.start w).checked build).world.outside = calls w.outside + 1 :=
        hcalls w
      have hrest := hfollows.called hcalls
      rw [← hcounted] at hrest
      exact hrest.trans (congrArg (· + _) hfirst)
  · intro hfail
    refine ⟨((Session.start w).checkProject build).2, ?_, ?_, rfl⟩
    · simp [run, Session.start, Session.checkProject, Session.runBuild, hfail]
    · simp [Session.start, Session.checkProject, Session.runBuild, hfail]

/-- The two candidates of the first file and the one of the second are tried together, then those of
the first file, then each alone: the plan costs all that it may. -/
theorem builds_within_budget_requiresFirst :
    (∀ e ∈ twoEntries, e.lines.Nodup) ∧ (requiresFirst.toBuild ⟨twoFiles, 0⟩).1 = true ∧
    Plan.budget twoEntries = 5 ∧
    ∃ report s' ts,
      run requiresFirst.toBuild twoEntries (Session.start ⟨twoFiles, 0⟩) = (some report, s') ∧
      s'.trials = ⟨none, twoFiles, true⟩ :: ts ∧ report.verifications = 5 ∧
      WithinBudget twoEntries ts 5 ∧ s'.world.outside = 6 := by
  have hlines : ∀ e ∈ twoEntries, e.lines.Nodup := by decide
  have hpass : (requiresFirst.toBuild ⟨twoFiles, 0⟩).1 = true := by decide
  have hcount : (run requiresFirst.toBuild twoEntries (Session.start ⟨twoFiles, 0⟩)).1.map
      Report.verifications = some 5 := by decide +kernel
  obtain ⟨report, s', ts, hrun, htrials, hbudget, hcalls⟩ :=
    (builds_within_budget hlines ⟨twoFiles, 0⟩).1 hpass
  have hcalls := hcalls id fun _ => rfl
  have hfive : report.verifications = 5 := by simpa [hrun] using hcount
  rw [hfive] at hbudget hcalls
  exact ⟨hlines, hpass, by decide, report, s', ts, hrun, htrials, hfive, hbudget, hcalls⟩

end IncludeSweep
