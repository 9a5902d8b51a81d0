import IncludeSweep.Proofs.DisturbedFile
import IncludeSweep.Proofs.Replay

set_option autoImplicit false

/-! # Poisoned sessions

A file that cannot be put back poisons the session for good. From then on the finer tiers start no
build. The batch of all files does not ask whether the session is poisoned: a later run still builds
it once, and commits it if that build passes. -/

namespace IncludeSweep

open Text Draft

variable {σ : Type}

def Deed.poisons : Deed → Bool
  | .stuck _ => true
  | _ => false

/-- No build is started in a poisoned session; the flag tells whether the session is poisoned where
the journal begins. -/
def Careful : Bool → Journal → Prop
  | _, [] => True
  | tainted, d :: j =>
    (∀ tier, d = .built tier → tainted = false) ∧ Careful (tainted || d.poisons) j

def Unbuilt (j : Journal) : Prop :=
  ∀ tier, .built tier ∉ j

section
variable {t t' : Bool} {j j' : Journal}

@[simp] theorem careful_nil : Careful t [] := trivial

@[simp] theorem careful_built {tier : Tier} :
    Careful t (.built tier :: j) ↔ t = false ∧ Careful t j := by
  simp [Careful, Deed.poisons]

@[simp] theorem careful_wrote {path : Path} {text : String} :
    Careful t (.wrote path text :: j) ↔ Careful t j := by
  simp [Careful, Deed.poisons]

@[simp] theorem careful_stuck {path : Path} : Careful t (.stuck path :: j) ↔ Careful true j := by
  simp [Careful, Deed.poisons]

@[simp] theorem careful_noted {path : Path} {os : List Outcome} :
    Careful t (.noted path os :: j) ↔ Careful t j := by
  simp [Careful, Deed.poisons]

theorem careful_append :
    Careful t (j ++ j') ↔ Careful t j ∧ Careful (t || j.any Deed.poisons) j' := by
  induction j generalizing t with
  | nil => simp [Careful]
  | cons d j ih =>
    rw [List.cons_append, Careful, Careful, ih, List.any_cons, Bool.or_assoc, and_assoc]

theorem Unbuilt.careful (h : Unbuilt j) (t : Bool) : Careful t j := by
  induction j generalizing t with
  | nil => trivial
  | cons d j ih =>
    refine ⟨?_, ih (fun tier hmem => h tier (List.mem_cons_of_mem d hmem)) _⟩
    rintro tier rfl
    exact absurd List.mem_cons_self (h tier)

theorem Careful.unbuilt (h : Careful true j) : Unbuilt j := by
  intro tier hmem
  obtain ⟨j₁, j₂, rfl⟩ := List.append_of_mem hmem
  have hbuilt := (careful_append.1 h).2.1 tier rfl
  simp at hbuilt

theorem Careful.weaken (h : Careful t j) (ht : t' = true → t = true) : Careful t' j := by
  cases t with
  | true => exact h.unbuilt.careful t'
  | false =>
    cases t' with
    | true => simp at ht
    | false => exact h

theorem Careful.after_stuck {path : Path} (h : Careful t (j ++ .stuck path :: j')) : Unbuilt j' := by
  have hrest := (careful_append.1 h).2.2
  simp only [Deed.poisons, Bool.or_true] at hrest
  exact hrest.unbuilt

theorem unbuilt_nil : Unbuilt [] := by
  simp [Unbuilt]

theorem Unbuilt.append (h : Unbuilt j) (h' : Unbuilt j') : Unbuilt (j ++ j') := by
  intro tier hmem
  exact (List.mem_append.1 hmem).elim (h tier) (h' tier)

end

namespace Progress

variable {build : Build σ} {p p' : Progress σ} {j j' : Journal}

theorem Follows.tainted (h : p.Follows build j p') :
    p'.tainted = (p.tainted || j.any Deed.poisons) := by
  induction h with
  | done p => simp
  | stuck _ ih => simpa [Deed.poisons, taint] using ih
  | _ => assumption

theorem Follows.trials (h : p.Follows build j p') (hj : Unbuilt j) : p'.trials = p.trials := by
  induction h with
  | done p => rfl
  | built tier _ _ => exact absurd List.mem_cons_self (hj tier)
  | _ =>
    rename_i ih
    exact ih fun tier hmem => hj tier (List.mem_cons_of_mem _ hmem)

theorem Follows.careful (hfollows : p.Follows build j p') (h : Careful p.tainted j)
    (h' : Careful p'.tainted j') : Careful p.tainted (j ++ j') := by
  rw [hfollows.tainted] at h'
  exact careful_append.2 ⟨h, h'⟩

end Progress

theorem Draft.changeDeeds_unbuilt (d : Draft) (ns : List Nat) : Unbuilt (d.changeDeeds ns) := by
  unfold changeDeeds
  split <;> simp [Unbuilt]

namespace OpenFile

variable (f : OpenFile)

theorem noteDeeds_unbuilt (ns : List Nat) (r : Resolution) (tier : Tier) :
    Unbuilt (f.noteDeeds ns r tier) := by
  simp [Unbuilt, noteDeeds]

theorem restoreDeeds_unbuilt (s : Snapshot) (tier : Tier) (p : Progress σ) :
    Unbuilt (f.restoreDeeds s tier p) := by
  unfold restoreDeeds
  cases f.draft.revert p.disk s with
  | ok r => simp [Unbuilt]
  | error e => simp [Unbuilt, giveUpDeeds, concludeDeeds, noteDeeds]

theorem commitDeeds_unbuilt (s : Snapshot) (tier : Tier) (p : Progress σ) :
    Unbuilt (f.commitDeeds s tier p) := by
  unfold commitDeeds
  cases f.draft.delete p.disk with
  | ok r => simp [Unbuilt, concludeDeeds, noteDeeds]
  | error e => exact (f.restoreDeeds_unbuilt s tier p).append (noteDeeds_unbuilt _ _ _ tier)

theorem flushDeeds_unbuilt (p : Progress σ) : Unbuilt (f.flushDeeds p) := by
  unfold flushDeeds
  split
  · cases f.draft.flush p.disk with
    | ok r => simp [Unbuilt]
    | error e => by_cases h : p.unrestored.any f.draft.path.same <;> simp [Unbuilt, h]
  · exact unbuilt_nil

end OpenFile

theorem stageDeeds_unbuilt (fs : List OpenFile) (p : Progress σ) : Unbuilt (stageDeeds fs p) := by
  induction fs generalizing p with
  | nil => exact unbuilt_nil
  | cons f fs ih =>
    unfold stageDeeds
    cases f.draft.comment p.disk f.remaining with
    | error e => exact f.noteDeeds_unbuilt _ _ .global
    | ok commented =>
      refine (Draft.changeDeeds_unbuilt _ _).append ?_
      split
      · exact ih _
      · exact unbuilt_nil

theorem restoreAllDeeds_unbuilt (staged : List Staged) (p : Progress σ) :
    Unbuilt (restoreAllDeeds staged p) := by
  induction staged generalizing p with
  | nil => exact unbuilt_nil
  | cons st staged ih =>
    obtain ⟨f, _ | s⟩ := st
    · exact ih p
    · exact (f.restoreDeeds_unbuilt s .global p).append (ih _)

theorem commitAllDeeds_unbuilt (staged : List Staged) (p : Progress σ) :
    Unbuilt (commitAllDeeds staged p) := by
  induction staged generalizing p with
  | nil => exact unbuilt_nil
  | cons st staged ih =>
    obtain ⟨f, _ | s⟩ := st
    · exact ih p
    · exact (f.commitDeeds_unbuilt s .global p).append (ih _)

@[simp] theorem careful_changeDeeds {t : Bool} {d : Draft} {ns : List Nat} {j : Journal} :
    Careful t (d.changeDeeds ns ++ j) ↔ Careful t j := by
  unfold changeDeeds
  split <;> simp

@[simp] theorem careful_noteDeeds {t : Bool} {f : OpenFile} {ns : List Nat} {r : Resolution}
    {tier : Tier} {j : Journal} : Careful t (f.noteDeeds ns r tier ++ j) ↔ Careful t j := by
  simp [OpenFile.noteDeeds]

theorem careful_stageDeeds {t : Bool} {fs : List OpenFile} {p : Progress σ} {j : Journal} :
    Careful t (stageDeeds fs p ++ j) ↔ Careful t j := by
  induction fs generalizing p with
  | nil => rfl
  | cons f fs ih =>
    unfold stageDeeds
    cases f.draft.comment p.disk f.remaining with
    | error e => exact careful_noteDeeds
    | ok commented =>
      rw [List.append_assoc, careful_changeDeeds]
      split
      · exact ih
      · rfl

/-- The one build of the batch comes before any of its files is put back. -/
theorem judgeAllDeeds_careful (build : Build σ) (fs : List OpenFile) (p : Progress σ) :
    Careful false (judgeAllDeeds build fs p) := by
  unfold judgeAllDeeds
  rw [careful_stageDeeds]
  split
  · refine careful_built.2 ⟨rfl, ?_⟩
    split
    · exact (commitAllDeeds_unbuilt _ _).careful false
    · exact (restoreAllDeeds_unbuilt _ _).careful false
  · exact (restoreAllDeeds_unbuilt _ _).careful false

section
variable (build : Build σ)

variable {build}

theorem FileTrial.careful {f : OpenFile} {p : Progress σ} {j : Journal}
    {r : Bool × OpenFile × Progress σ} (h : FileTrial build f p j r) : Careful p.tainted j := by
  cases h with
  | gaveUp _ => exact (f.noteDeeds_unbuilt _ _ .perFile).careful _
  | skipped _ _ => exact (OpenFile.noteDeeds_unbuilt _ _ _ .perFile).careful _
  | passed ht _ _ _ =>
    rw [OpenFile.tryTogetherDeeds, List.append_assoc, List.append_assoc]
    exact careful_changeDeeds.2 (careful_noteDeeds.2 (careful_built.2
      ⟨ht, (OpenFile.commitDeeds_unbuilt _ _ .perFile _).careful _⟩))
  | failed ht _ _ _ =>
    rw [OpenFile.tryTogetherDeeds, List.append_assoc, List.append_assoc]
    exact careful_changeDeeds.2 (careful_noteDeeds.2 (careful_built.2
      ⟨ht, (OpenFile.restoreDeeds_unbuilt _ _ .perFile _).careful _⟩))

theorem LineTrials.careful {ns news : List Nat} {f f' : OpenFile} {p p' : Progress σ} {j : Journal}
    (h : LineTrials build ns f p j news f' p') : Careful p.tainted j := by
  induction h with
  | done f p => trivial
  | gaveUp _ => exact (OpenFile.noteDeeds_unbuilt _ _ _ .sequential).careful _
  | skipped _ _ _ ih => exact careful_noteDeeds.2 ih
  | passed ht _ _ _ _ ih => exact careful_changeDeeds.2 (careful_built.2 ⟨ht, ih⟩)
  | failed ht _ _ _ _ _ ih =>
    refine careful_changeDeeds.2 (careful_built.2 ⟨ht, ?_⟩)
    rw [List.append_assoc]
    exact careful_changeDeeds.2 (careful_noteDeeds.2 ih)
  | stuck ht _ _ _ _ =>
    refine careful_changeDeeds.2 (careful_built.2 ⟨ht, careful_stuck.2 ?_⟩)
    exact (OpenFile.noteDeeds_unbuilt _ _ _ .sequential).careful true

variable (build)

theorem judgeLinesDeeds_careful (f : OpenFile) (p : Progress σ) :
    Careful p.tainted (judgeLinesDeeds build f p) := by
  obtain ⟨news, f', p', he, htrials⟩ := tryLines_trials build f.remaining [] f p
  unfold judgeLinesDeeds
  rw [he]
  refine (htrials.follows build).careful htrials.careful (Unbuilt.careful ?_ _)
  split
  · exact unbuilt_nil
  · exact ((f'.flushDeeds_unbuilt p').append (OpenFile.noteDeeds_unbuilt _ _ _ .sequential)).append
      (OpenFile.noteDeeds_unbuilt _ _ _ .sequential)

theorem refineFileDeeds_careful (f : OpenFile) (p : Progress σ) :
    Careful p.tainted (refineFileDeeds build f p) := by
  unfold refineFileDeeds
  split
  · trivial
  split
  · exact judgeLinesDeeds_careful build f p
  have hbatch := judgeFile_trial build f p
  refine hbatch.follows.careful hbatch.careful ?_
  split
  · trivial
  · exact judgeLinesDeeds_careful build _ _

theorem refineAllDeeds_careful (fs : List OpenFile) (p : Progress σ) :
    Careful p.tainted (refineAllDeeds build fs p) := by
  induction fs generalizing p with
  | nil => trivial
  | cons f fs ih =>
    exact (refineFile_follows build f p).careful (refineFileDeeds_careful build f p) (ih _)

theorem runDeeds_careful (plan : Plan) (s : Session σ) : Careful false (runDeeds build plan s) := by
  unfold runDeeds
  by_cases hnil : (openAll s.world.disk plan).1 = []
  · simp [hnil]
  simp only [hnil, if_false]
  refine careful_append.2 ⟨judgeAllDeeds_careful build _ _, ?_⟩
  -- the session may have been poisoned before the run, which only makes the finer tiers do less
  refine (refineAllDeeds_careful build _ _).weaken fun hpoisoned => ?_
  rw [Bool.false_or] at hpoisoned
  rw [(judgeAll_follows build _ _).tainted, hpoisoned, Bool.or_true]

end

def NoneCommitted (j : Journal) : Prop :=
  ∀ o ∈ outcomesIn j, o.resolution ≠ .committed

theorem noneCommitted_append {j j' : Journal} :
    NoneCommitted (j ++ j') ↔ NoneCommitted j ∧ NoneCommitted j' := by
  simp only [NoneCommitted, outcomesIn_append, List.mem_append, or_imp, forall_and]

theorem NoneCommitted.append {j j' : Journal} (h : NoneCommitted j) (h' : NoneCommitted j') :
    NoneCommitted (j ++ j') :=
  noneCommitted_append.2 ⟨h, h'⟩

theorem noneCommitted_nil : NoneCommitted [] := by
  simp [NoneCommitted, outcomesIn]

namespace OpenFile

variable (f : OpenFile)

theorem mem_noteDeeds {ns : List Nat} {r : Resolution} {tier : Tier} {o : Outcome}
    (h : o ∈ outcomesIn (f.noteDeeds ns r tier)) : o.resolution = r ∧ o.tier = some tier := by
  have ho : o ∈ f.outcomesAt ns r tier := by simpa [outcomesIn, noteDeeds, Deed.outcomes] using h
  exact (mem_outcomesAt ho).2.2

theorem giveUpDeeds_noneCommitted (tier : Tier) : NoneCommitted (f.giveUpDeeds tier) := by
  intro o ho
  rw [(f.mem_noteDeeds ho).1]
  simp

theorem restoreDeeds_noneCommitted (s : Snapshot) (tier : Tier) (p : Progress σ) :
    NoneCommitted (f.restoreDeeds s tier p) := by
  unfold restoreDeeds
  cases f.draft.revert p.disk s with
  | ok r => simp [NoneCommitted, outcomesIn, Deed.outcomes]
  | error e => exact f.giveUpDeeds_noneCommitted tier

theorem commitDeeds_tier {s : Snapshot} {tier : Tier} {p : Progress σ} {o : Outcome}
    (h : o ∈ outcomesIn (f.commitDeeds s tier p)) (hc : o.resolution = .committed) :
    o.tier = some tier := by
  unfold commitDeeds at h
  cases hd : f.draft.delete p.disk with
  | ok r =>
    rw [hd] at h
    exact (mem_noteDeeds _ h).2
  | error e =>
    rw [hd] at h
    exact absurd hc (((f.restoreDeeds_noneCommitted s tier p).append
      (giveUpDeeds_noneCommitted _ tier)) o h)

end OpenFile

theorem stageDeeds_noneCommitted (fs : List OpenFile) (p : Progress σ) :
    NoneCommitted (stageDeeds fs p) := by
  induction fs generalizing p with
  | nil => exact noneCommitted_nil
  | cons f fs ih =>
    unfold stageDeeds
    cases f.draft.comment p.disk f.remaining with
    | error e => exact f.giveUpDeeds_noneCommitted .global
    | ok commented =>
      have hchange : NoneCommitted (commented.2.1.changeDeeds commented.1) := by
        unfold changeDeeds
        split <;> simp [NoneCommitted, outcomesIn, Deed.outcomes]
      refine hchange.append ?_
      split
      · exact ih _
      · exact noneCommitted_nil

theorem restoreAllDeeds_noneCommitted (staged : List Staged) (p : Progress σ) :
    NoneCommitted (restoreAllDeeds staged p) := by
  induction staged generalizing p with
  | nil => exact noneCommitted_nil
  | cons st staged ih =>
    obtain ⟨f, _ | s⟩ := st
    · exact ih p
    · exact (f.restoreDeeds_noneCommitted s .global p).append (ih _)

theorem commitAllDeeds_tier {staged : List Staged} {p : Progress σ} {o : Outcome}
    (h : o ∈ outcomesIn (commitAllDeeds staged p)) (hc : o.resolution = .committed) :
    o.tier = some .global := by
  induction staged generalizing p with
  | nil => simp [commitAllDeeds, outcomesIn] at h
  | cons st staged ih =>
    obtain ⟨f, _ | s⟩ := st
    · exact ih h
    · rw [commitAllDeeds, outcomesIn_append] at h
      exact (List.mem_append.1 h).elim (fun h => f.commitDeeds_tier h hc) ih

/-- At most one build, of the batch of all files, and whatever is committed rests on it. -/
structure BatchOnly (ts : List Trial) (os : List Outcome) : Prop where
  once : ts.length ≤ 1
  batch : ∀ t ∈ ts, t.tier = some .global
  rests : ∀ o ∈ os, o.resolution = .committed → o.tier = some .global ∧ ∃ t ∈ ts, t.passed = true

theorem judged_batch (build : Build σ) (staged : List Staged) (passed : Bool) (p : Progress σ) :
    (if passed then commitAll staged p else restoreAll staged p).2.trials = p.trials ∧
      ∀ o ∈ outcomesIn (if passed then commitAllDeeds staged p else restoreAllDeeds staged p),
        o.resolution = .committed → o.tier = some .global ∧ passed = true := by
  cases passed with
  | false =>
    exact ⟨(restoreAll_follows build staged p).trials (restoreAllDeeds_unbuilt staged p),
      fun o ho hc => absurd hc (restoreAllDeeds_noneCommitted staged p o ho)⟩
  | true =>
    exact ⟨(commitAll_follows build staged p).trials (commitAllDeeds_unbuilt staged p),
      fun o ho hc => ⟨commitAllDeeds_tier ho hc, rfl⟩⟩

theorem judgeAll_built (build : Build σ) (fs : List OpenFile) (p : Progress σ) :
    (judgeAll build fs p).2.trials = p.trials ++
      if (stageAll fs p).1 then
        [⟨some .global, (stageAll fs p).2.2.disk, ((stageAll fs p).2.2.verify build .global).1⟩]
      else [] := by
  have hstaged := (stageAll_follows build fs p).trials (stageDeeds_unbuilt fs p)
  unfold judgeAll
  cases hall : (stageAll fs p).1 with
  | false =>
    simp only [hall, Bool.false_eq_true, if_false]
    rw [(restoreAll_follows build _ _).trials (restoreAllDeeds_unbuilt _ _), hstaged,
      List.append_nil]
  | true =>
    simp only [hall, if_true]
    rw [(judged_batch build _ _ _).1, ← hstaged]
    rfl

theorem judgeAll_batchOnly (build : Build σ) (fs : List OpenFile) (p : Progress σ) :
    ∃ ts, (judgeAll build fs p).2.trials = p.trials ++ ts ∧
      BatchOnly ts (outcomesIn (judgeAllDeeds build fs p)) := by
  refine ⟨_, judgeAll_built build fs p, ?_⟩
  have hkept := stageDeeds_noneCommitted fs p
  unfold judgeAllDeeds
  cases hall : (stageAll fs p).1 with
  | false =>
    simp only [hall, Bool.false_eq_true, if_false]
    refine ⟨by simp, by simp, fun o ho hc => absurd hc ?_⟩
    exact hkept.append (restoreAllDeeds_noneCommitted _ _) o ho
  | true =>
    simp only [hall, if_true]
    have hrests := (judged_batch build (stageAll fs p).2.1
      ((stageAll fs p).2.2.verify build .global).1 ((stageAll fs p).2.2.verify build .global).2).2
    refine ⟨by simp, by simp, fun o ho hc => ?_⟩
    rw [outcomesIn_append] at ho
    obtain ⟨htier, hpassed⟩ :=
      hrests o ((List.mem_append.1 ho).resolve_left fun ho => hkept o ho hc) hc
    exact ⟨htier, _, List.mem_singleton_self _, hpassed⟩

theorem refineFileDeeds_noneCommitted (build : Build σ) (f : OpenFile) {p : Progress σ}
    (ht : p.tainted = true) : NoneCommitted (refineFileDeeds build f p) := by
  have hlines : ∀ f : OpenFile, NoneCommitted (judgeLinesDeeds build f p) := by
    intro f
    unfold judgeLinesDeeds
    cases f.remaining with
    | nil => simpa [tryDeeds, tryLines] using noneCommitted_nil
    | cons n ns => simpa [tryDeeds, tryLines, ht] using f.giveUpDeeds_noneCommitted .sequential
  unfold refineFileDeeds
  split
  · exact noneCommitted_nil
  split
  · exact hlines f
  · -- the batch of the file gives everything up, and nothing remains for its lines
    have hfile : judgeFile build f p = (false, f.giveUp .perFile p) := by simp [judgeFile, ht]
    have hdeeds : judgeFileDeeds build f p = f.giveUpDeeds .perFile := by simp [judgeFileDeeds, ht]
    rw [hfile, hdeeds]
    simpa [OpenFile.giveUp_remaining] using f.giveUpDeeds_noneCommitted .perFile

theorem refineAllDeeds_noneCommitted (build : Build σ) (fs : List OpenFile) {p : Progress σ}
    (ht : p.tainted = true) : NoneCommitted (refineAllDeeds build fs p) := by
  induction fs generalizing p with
  | nil => exact noneCommitted_nil
  | cons f fs ih =>
    refine (refineFileDeeds_noneCommitted build f ht).append (ih ?_)
    rw [(refineFile_follows build f p).tainted, ht, Bool.true_or]

theorem refineAll_trials (build : Build σ) (fs : List OpenFile) {p : Progress σ}
    (ht : p.tainted = true) : (refineAll build fs p).2.trials = p.trials := by
  have hcareful := refineAllDeeds_careful build fs p
  rw [ht] at hcareful
  exact (refineAll_follows build fs p).trials hcareful.unbuilt

theorem runPlan_batchOnly (build : Build σ) (plan : Plan) {s : Session σ} (ht : s.tainted = true) :
    ∃ ts, (runPlan build plan s).2.trials = s.trials ++ ts ∧
      BatchOnly ts (runPlan build plan s).2.outcomes := by
  have hfollows := (runPlan_follows build plan s).outcomes
  have hunopened : ∀ o ∈ plan.flatMap (unopened s.world.disk), o.resolution ≠ .committed := by
    intro o ho
    obtain ⟨e, _, ho⟩ := List.mem_flatMap.1 ho
    rw [(resolution_of_unopened ho).1]
    simp
  rw [hfollows]
  unfold runDeeds runPlan
  rw [openAll_origins]
  by_cases hnil : (plan.filterMap (originOf s.world.disk)).map Origin.opened = []
  · simp only [hnil, if_true]
    refine ⟨[], (List.append_nil _).symm, by simp, by simp, fun o ho hc => absurd hc ?_⟩
    rw [show outcomesIn [] = [] from rfl, List.append_nil] at ho
    exact hunopened o ho
  · simp only [hnil, if_false]
    obtain ⟨ts, htrials, honly⟩ := judgeAll_batchOnly build
      ((plan.filterMap (originOf s.world.disk)).map Origin.opened) (s.opened plan)
    -- the batch leaves the session poisoned, so the finer tiers neither build nor commit
    have htainted : (judgeAll build ((plan.filterMap (originOf s.world.disk)).map Origin.opened)
        (s.opened plan)).2.tainted = true := by
      rw [(judgeAll_follows build _ _).tainted]
      simp [Session.opened, ht]
    refine ⟨ts, (refineAll_trials build _ htainted).trans htrials, honly.once, honly.batch,
      fun o ho hc => ?_⟩
    rw [outcomesIn_append] at ho
    rcases List.mem_append.1 ho with ho | ho
    · exact absurd hc (hunopened o ho)
    · refine honly.rests o ((List.mem_append.1 ho).resolve_right fun ho => ?_) hc
      exact refineAllDeeds_noneCommitted build _ htainted o ho hc

inductive Call where
  | preflight
  | run (plan : Plan)
  | outside (disk : Disk)

namespace Session

def call (build : Build σ) (s : Session σ) : Call → Session σ
  | .preflight => (s.checkProject build).2
  | .run plan => (IncludeSweep.run build plan s).2
  | .outside disk => { s with world := { s.world with disk := disk } }

def calls (build : Build σ) (s : Session σ) (cs : List Call) : Session σ :=
  cs.foldl (call build) s

theorem checked_tainted (build : Build σ) (s : Session σ) : (s.checked build).tainted = s.tainted := by
  unfold checked
  split <;> rfl

theorem run_tainted (build : Build σ) (plan : Plan) {s : Session σ} (h : s.tainted = true) :
    (run build plan s).2.tainted = true := by
  have hchecked := (s.checked_tainted build).trans h
  cases hrun : run build plan s with
  | mk report s' =>
    cases report with
    | some report =>
      obtain ⟨p, hfollows, _, rfl⟩ := run_follows hrun
      have htainted := hfollows.tainted
      rwa [show ((s.checked build).opened plan).tainted = true from hchecked,
        Bool.true_or] at htainted
    | none =>
      obtain rfl := run_eq_none hrun
      exact hchecked

theorem call_tainted (build : Build σ) {s : Session σ} (h : s.tainted = true) (c : Call) :
    (s.call build c).tainted = true := by
  cases c with
  | preflight => exact h
  | run plan => exact run_tainted build plan h
  | outside disk => exact h

theorem calls_tainted (build : Build σ) {s : Session σ} (h : s.tainted = true) (cs : List Call) :
    (s.calls build cs).tainted = true := by
  induction cs generalizing s with
  | nil => exact h
  | cons c cs ih => exact ih (s.call_tainted build h c)

end Session

/-- A file that cannot be put back ends the builds of its run. In every later run of the session only
the batch of all files is built, once, and nothing is committed but on the strength of that build. -/
theorem poisoned_session_builds_batches_only {build : Build σ} {plan : Plan} {s s' : Session σ}
    {report : Report} (hrun : run build plan s = (some report, s')) {j₁ j₂ : Journal} {path : Path}
    (hj : runJournal build plan s = j₁ ++ .stuck path :: j₂) :
    path ∈ report.unrestored ∧ (∀ tier, .built tier ∉ j₂) ∧
    ∀ (cs : List Call) (plan' : Plan) (report' : Report) (s'' : Session σ),
      run build plan' (s'.calls build cs) = (some report', s'') →
      ∃ ts, s''.trials = ((s'.calls build cs).checked build).trials ++ ts ∧
        BatchOnly ts report'.outcomes := by
  have hcareful := runDeeds_careful build plan (s.checked build)
  change Careful false (runJournal build plan s) at hcareful
  obtain ⟨p, hfollows, rfl, rfl⟩ := run_follows hrun
  rw [hj] at hcareful hfollows
  refine ⟨?_, hcareful.after_stuck, fun cs plan' report' s'' hrun' => ?_⟩
  · change path ∈ p.unrestored
    rw [hfollows.unrestored]
    simp
  · have htainted : p.tainted = true := by
      rw [hfollows.tainted]
      simp [Deed.poisons]
    have hlater := Session.calls_tainted build htainted cs
    rw [← Session.checked_tainted build] at hlater
    obtain ⟨ts, htrials, honly⟩ := runPlan_batchOnly build plan' hlater
    obtain ⟨rfl, rfl⟩ := run_eq_some hrun'
    refine ⟨ts, htrials, honly.once, honly.batch, fun o ho hc => honly.rests o ?_ hc⟩
    exact (stableSort_perm Outcome.le _).mem_iff.1 ho

def oneLineEach : Disk :=
  ⟨["src"],
    [(["src"], .dir),
     (["src", "a.cc"], .file 0o644 (encode "#include <x.h>\n")),
     (["src", "b.cc"], .file 0o644 (encode "#include <y.h>\n"))], []⟩

def onlyFirst : Plan :=
  [.select ⟨"a.cc"⟩ [1] "#include <x.h>\n"]

def onlySecond : Plan :=
  [.select ⟨"b.cc"⟩ [1] "#include <y.h>\n"]

/-- The second build fails, and while it runs somebody appends to the first file. -/
def appendsOnce : Rehearsal.BuildScript :=
  ⟨false, [], [true, false], [(2, .append ⟨"a.cc"⟩ (encode "int e;\n"))]⟩

theorem poisoned_session_builds_batches_only_oneLineEach :
    ∃ report s',
      run appendsOnce.toBuild onlyFirst (Session.start ⟨oneLineEach, 0⟩) = (some report, s') ∧
      ⟨"a.cc"⟩ ∈ report.unrestored ∧
      ∀ (cs : List Call) (plan' : Plan) (report' : Report) (s'' : Session Nat),
        run appendsOnce.toBuild plan' (s'.calls appendsOnce.toBuild cs) = (some report', s'') →
        ∃ ts, s''.trials =
            ((s'.calls appendsOnce.toBuild cs).checked appendsOnce.toBuild).trials ++ ts ∧
          BatchOnly ts report'.outcomes := by
  have hpass : (appendsOnce.toBuild (Session.start ⟨oneLineEach, 0⟩).world).1 = true := by decide
  have hj : runJournal appendsOnce.toBuild onlyFirst (Session.start ⟨oneLineEach, 0⟩) =
      [.wrote ⟨"a.cc"⟩ "// #include <x.h>\n", .built .global] ++ .stuck ⟨"a.cc"⟩ ::
        [.noted ⟨"a.cc"⟩ [⟨⟨⟨"a.cc"⟩, 1, "#include <x.h>"⟩, .keptIoFailure, some .global⟩]] := by
    decide +kernel
  obtain ⟨report, s', hrun⟩ := reports_of_pass hpass onlyFirst
  obtain ⟨hlisted, _, hlater⟩ := poisoned_session_builds_batches_only hrun hj
  exact ⟨report, s', hrun, hlisted, hlater⟩

/-- A poisoned session does commit: the first file is left commented out and the session poisoned,
and then the second file is built on top of it and its line removed. -/
theorem poisoned_session_commits :
    (run appendsOnce.toBuild onlyFirst (Session.start ⟨oneLineEach, 0⟩)).1.map Report.unrestored =
      some [⟨"a.cc"⟩] ∧
    (run appendsOnce.toBuild onlyFirst (Session.start ⟨oneLineEach, 0⟩)).2.tainted = true ∧
    (run appendsOnce.toBuild onlySecond
      (run appendsOnce.toBuild onlyFirst (Session.start ⟨oneLineEach, 0⟩)).2).1.map
        Report.outcomes =
      some [⟨⟨⟨"b.cc"⟩, 1, "#include <y.h>"⟩, .committed, some .global⟩] := by
  decide +kernel

end IncludeSweep
