import IncludeSweep.Proofs.Opening
import IncludeSweep.Sweep

set_option autoImplicit false

/-! # The stages of a sweep

A sweep finds its files, sees the untouched project build, has the files scanned and runs the plan. It
ends at the first stage that fails; a dry sweep has only the first and the third. -/

namespace IncludeSweep

variable {σ : Type}

theorem Sources.collect_ok (disk : Disk) (settings : Settings) (target : Path) :
    (∃ files, collect disk settings target = .ok files) ↔ disk.contains target = true := by
  unfold collect
  cases hc : disk.contains target with
  | false => simp
  | true =>
    cases hf : disk.isFile target with
    | true => simp
    | false =>
      cases hl : disk.locate target with
      | error cause => simp [Disk.contains, Disk.find?, hl] at hc
      | ok dir => simp

section
variable {build : Build σ} {analysis : Analysis σ} {settings : Settings} {target : Path} {w : World σ}
  {files : List Path}

theorem findCandidates_counted (analysis : Analysis σ) (files : List Path) (w : World σ)
    {atOnce : Nat} (h : atOnce ≤ FileScan.maxAtOnce) :
    findCandidates atOnce analysis files w =
      (.ok ((FileScan.inOrder (FileScan.each analysis files w).1).filterMap
        (FileScan.candidates? (FileScan.each analysis files w).2.disk)),
        (FileScan.each analysis files w).2) := by
  unfold findCandidates FileScan.all
  rw [if_neg (Nat.not_lt.2 h)]

theorem findCandidates_uncounted (analysis : Analysis σ) (files : List Path) (w : World σ)
    {atOnce : Nat} (h : FileScan.maxAtOnce < atOnce) :
    findCandidates atOnce analysis files w = (.error (.tooManyScans atOnce), w) := by
  unfold findCandidates FileScan.all
  rw [if_pos h]

theorem sweep_missing {e : SweepError} (h : Sources.collect w.disk settings target = .error e) :
    sweep build analysis settings target w = (.error e, .start w) := by
  unfold sweep
  rw [h]

theorem sweep_dry (hfiles : Sources.collect w.disk settings target = .ok files)
    (hdry : settings.dryRun = true) {found : Except SweepError (List FileCandidates)} {w' : World σ}
    (hfound : findCandidates settings.scanJobs analysis files w = (found, w')) :
    sweep build analysis settings target w =
      (found.map fun candidates => ⟨target, files.length, candidates, none⟩, .start w') := by
  unfold sweep
  simp only [hfiles, hdry, if_true, hfound]
  cases found <;> rfl

/-- The session after the untouched project was built, in whatever world the next stage leaves. -/
def Session.built (build : Build σ) (w w' : World σ) : Session σ :=
  ⟨w', (build w).1, false, 0, [⟨none, w.disk, (build w).1⟩]⟩

theorem checkProject_start (build : Build σ) (w : World σ) :
    (Session.start w).checkProject build = ((build w).1, .built build w (build w).2) :=
  rfl

theorem sweep_broken (hfiles : Sources.collect w.disk settings target = .ok files)
    (hdry : settings.dryRun = false) (hfail : (build w).1 = false) :
    sweep build analysis settings target w =
      (.error .projectBroken, .built build w (build w).2) := by
  unfold sweep
  simp [hfiles, hdry, checkProject_start, hfail]

theorem sweep_unscanned (hfiles : Sources.collect w.disk settings target = .ok files)
    (hdry : settings.dryRun = false) (hpass : (build w).1 = true) {e : SweepError} {w' : World σ}
    (hfound : findCandidates settings.scanJobs analysis files (build w).2 = (.error e, w')) :
    sweep build analysis settings target w = (.error e, .built build w w') := by
  have hscan : findCandidates settings.scanJobs analysis files
      (Session.built build w (build w).2).world = (.error e, w') := hfound
  unfold sweep
  simp only [hfiles, hdry, checkProject_start, hpass, Bool.false_eq_true, if_false, if_true, hscan]
  rfl

theorem sweep_run (hfiles : Sources.collect w.disk settings target = .ok files)
    (hdry : settings.dryRun = false) (hpass : (build w).1 = true) {candidates : List FileCandidates}
    {w' : World σ}
    (hfound : findCandidates settings.scanJobs analysis files (build w).2 = (.ok candidates, w')) :
    ∃ report s', run build candidates (.built build w w') = (some report, s') ∧
      sweep build analysis settings target w =
        (.ok ⟨target, files.length, candidates, some report⟩, s') := by
  have hscan : findCandidates settings.scanJobs analysis files
      (Session.built build w (build w).2).world = (.ok candidates, w') := hfound
  have hready : ∀ t ∈ (Session.built build w w').preflight build, t.passed = true := by
    simp [Session.preflight, Session.built, hpass]
  obtain ⟨report, s', hrun⟩ := reports_of_preflight hready candidates
  refine ⟨report, s', hrun, ?_⟩
  have hgo : run build candidates { Session.built build w (build w).2 with world := w' } =
      (some report, s') := hrun
  unfold sweep
  simp only [hfiles, hdry, checkProject_start, hpass, Bool.false_eq_true, if_false, if_true, hscan, hgo]

end

end IncludeSweep
