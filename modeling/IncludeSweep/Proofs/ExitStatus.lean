import IncludeSweep.CommandLine.Run
import IncludeSweep.Proofs.SweepStages
import IncludeSweep.Rehearsal.Programs

set_option autoImplicit false

/-! # When the command succeeds

The exit code is settled before the first edit: by the target, the build directory, the programs that
a sweep needs, and the build of the untouched project. What comes after cannot change it any more, so
a command that fails has written nothing; only the programs that it started have acted. A command
waits for each program until it ends or its time is up, so programs that have no limit are taken to
end. -/

namespace IncludeSweep

variable {σ : Type}

namespace Host

def exitsZero (host : Host σ) (c : Command) (w : World σ) : Bool :=
  !Command.hasNul c.words &&
    match (host.start c.words c.timeout w).1 with
    | .ok ending => decide (ending.status = .exited 0)
    | .error _ => false

/-- The world after a program was to be started. No program can be given words with a NUL. -/
def after (host : Host σ) (c : Command) (w : World σ) : World σ :=
  if Command.hasNul c.words then w else (host.start c.words c.timeout w).2

def LeavesDisk (host : Host σ) : Prop :=
  ∀ words limit w, (host.start words limit w).2.disk = w.disk

theorem LeavesDisk.after {host : Host σ} (h : host.LeavesDisk) (c : Command) (w : World σ) :
    (host.after c w).disk = w.disk := by
  unfold Host.after
  split
  · rfl
  · exact h c.words c.timeout w

end Host

namespace Command

theorem finish_passed (c : Command) (ending : Ending) :
    (∃ output, c.finish ending = .ok output ∧ output.passed = true) ↔
      ending.status = .exited 0 := by
  unfold finish
  cases ending.status with
  | exited code =>
    have hzero : code.toNat = 0 ↔ code = 0 := by
      rw [← UInt8.toNat_inj]
      rfl
    simp [output, Output.passed, hzero]
  | killed signal => simp [output, Output.passed]
  | lost cause => simp
  | unending => simp

theorem passes_eq (host : Host σ) (c : Command) (hc : c.words ≠ []) (w : World σ) :
    c.passes host w = (host.exitsZero c w, host.after c w) := by
  unfold passes execute Host.exitsZero Host.after
  by_cases hn : hasNul c.words = true
  · simp [hc, hn]
  · cases hh : (host.start c.words c.timeout w).1 with
    | error cause => simp [hc, hn, hh]
    | ok ending =>
      have hpassed := c.finish_passed ending
      cases hf : c.finish ending with
      | error e =>
        have hno : ¬ ending.status = .exited 0 := by simpa [hf] using hpassed
        simp [hc, hn, hh, hf, hno]
      | ok output =>
        have heq : output.passed = decide (ending.status = .exited 0) := by
          rw [Bool.eq_iff_iff]
          simpa [hf] using hpassed
        simp [hc, hn, hh, hf, heq]

end Command

/-- A sweep comes to its end once it has found its target, has seen the project build and can keep
count of its scans; else it has gone no further than that build. -/
theorem sweep_cases (build : Build σ) (analysis : Analysis σ) (settings : Settings) (target : Path)
    (w : World σ) :
    ((∃ summary, (sweep build analysis settings target w).1 = .ok summary) ∧
      w.disk.contains target = true ∧ (settings.dryRun = false → (build w).1 = true) ∧
      settings.scanJobs ≤ FileScan.maxAtOnce) ∨
    ((∃ e, (sweep build analysis settings target w).1 = .error e) ∧
      ¬ (w.disk.contains target = true ∧ (settings.dryRun = false → (build w).1 = true) ∧
        settings.scanJobs ≤ FileScan.maxAtOnce) ∧
      (sweep build analysis settings target w).2.world =
        if !w.disk.contains target || settings.dryRun then w else (build w).2) := by
  have hcollect := Sources.collect_ok w.disk settings target
  cases hfiles : Sources.collect w.disk settings target with
  | error e =>
    have hmissing : w.disk.contains target = false := by simpa [hfiles] using hcollect
    rw [sweep_missing hfiles, hmissing]
    exact .inr ⟨⟨e, rfl⟩, by simp, rfl⟩
  | ok files =>
    have hthere : w.disk.contains target = true := hcollect.1 ⟨files, hfiles⟩
    rw [hthere]
    cases hdry : settings.dryRun with
    | true =>
      by_cases hcount : settings.scanJobs ≤ FileScan.maxAtOnce
      · rw [sweep_dry hfiles hdry (findCandidates_counted analysis files w hcount)]
        exact .inl ⟨⟨_, rfl⟩, rfl, by simp, hcount⟩
      · rw [sweep_dry hfiles hdry (findCandidates_uncounted analysis files w (Nat.lt_of_not_le hcount))]
        exact .inr ⟨⟨_, rfl⟩, fun h => hcount h.2.2, rfl⟩
    | false =>
      cases hpass : (build w).1 with
      | false =>
        rw [sweep_broken hfiles hdry hpass]
        exact .inr ⟨⟨_, rfl⟩, by simp, rfl⟩
      | true =>
        by_cases hcount : settings.scanJobs ≤ FileScan.maxAtOnce
        · obtain ⟨report, s', _, hsweep⟩ := sweep_run hfiles hdry hpass
            (findCandidates_counted analysis files (build w).2 hcount)
          rw [hsweep]
          exact .inl ⟨⟨_, rfl⟩, rfl, by simp, hcount⟩
        · rw [sweep_unscanned hfiles hdry hpass
            (findCandidates_uncounted analysis files (build w).2 (Nat.lt_of_not_le hcount))]
          exact .inr ⟨⟨_, rfl⟩, fun h => hcount h.2.2, rfl⟩

namespace Prerequisites

def askClangTidy (explicit : Option Path) : Command :=
  .askVersion (explicit.getD ⟨"clang-tidy"⟩)

def askCmake : Command :=
  .askVersion ⟨"cmake"⟩

/-- An explicit analysis program runs. Without one, that on the search path runs, or there is
something at one of the usual places. -/
def located (host : Host σ) (explicit : Option Path) (w : World σ) : Bool :=
  host.exitsZero (askClangTidy explicit) w ||
    explicit.isNone &&
      clangTidyLocations.any (host.after (askClangTidy explicit) w).disk.contains

theorem probe_eq (host : Host σ) (program : Path) (w : World σ) :
    probe host program w =
      (host.exitsZero (.askVersion program) w, host.after (.askVersion program) w) :=
  Command.passes_eq host (.askVersion program) (by simp [Command.askVersion]) w

theorem locateClangTidy_world (host : Host σ) (explicit : Option Path) (w : World σ) :
    (locateClangTidy host explicit w).2 = host.after (askClangTidy explicit) w := by
  cases explicit with
  | some path => simp [locateClangTidy, probe_eq, askClangTidy]
  | none => simp [locateClangTidy, probe_eq, askClangTidy]

theorem locateClangTidy_ok (host : Host σ) (explicit : Option Path) (w : World σ) :
    (∃ tool, (locateClangTidy host explicit w).1 = .ok tool) ↔ located host explicit w = true := by
  cases explicit with
  | some path =>
    cases hz : host.exitsZero (.askVersion path) w with
    | true => simp [locateClangTidy, probe_eq, located, askClangTidy, hz]
    | false => simp [locateClangTidy, probe_eq, located, askClangTidy, hz]
  | none =>
    cases hz : host.exitsZero (.askVersion ⟨"clang-tidy"⟩) w with
    | true => simp [locateClangTidy, probe_eq, located, askClangTidy, hz]
    | false =>
      -- the usual places are looked at on the disk that the failed call has left
      simp only [locateClangTidy, probe_eq, located, askClangTidy, Option.getD_none, hz,
        Bool.false_eq_true, if_false, Bool.false_or, Option.isNone_none, Bool.true_and]
      cases hf : clangTidyLocations.find?
          (host.after (.askVersion ⟨"clang-tidy"⟩) w).disk.contains with
      | some path => simpa using ⟨path, List.mem_of_find?_eq_some hf, List.find?_some hf⟩
      | none => simpa using List.find?_eq_none.1 hf

end Prerequisites

namespace CommandLine

open Prerequisites

def afterProbes (host : Host σ) (settings : Settings) (w : World σ) : World σ :=
  let asked := host.after (askClangTidy settings.clangTidy) w
  if settings.dryRun then asked else host.after askCmake asked

def buildCommand (settings : Settings) : Command :=
  .forBuild settings.buildDir settings.buildJobs settings.buildTimeout

/-- What a command needs of the world: the target, a configured build directory, the programs, and a
project that builds. A dry sweep has no need of the build program. -/
structure Prepared (host : Host σ) (settings : Settings) (target : Path) (w : World σ) : Prop where
  there : w.disk.contains target = true
  configured : w.disk.isFile (settings.buildDir.child "CMakeCache.txt") = true
  located : located host settings.clangTidy w = true
  cmake : settings.dryRun = false →
    host.exitsZero askCmake (host.after (askClangTidy settings.clangTidy) w) = true
  /-- The programs that were asked have not removed the target. -/
  lasting : (afterProbes host settings w).disk.contains target = true
  builds : settings.dryRun = false →
    host.exitsZero (buildCommand settings) (afterProbes host settings w) = true

/-- The world in which a command gives up. A command without a target or a build directory has
started nothing, one without its programs has asked for them, and only one that has found everything
has made the first build. -/
def givenUpIn (host : Host σ) (settings : Settings) (target : Path) (w : World σ) : World σ :=
  let asked := host.after (askClangTidy settings.clangTidy) w
  let probed := afterProbes host settings w
  if !w.disk.contains target || !w.disk.isFile (settings.buildDir.child "CMakeCache.txt") then w
  else if !located host settings.clangTidy w then asked
  else if settings.dryRun || !host.exitsZero askCmake asked || !probed.disk.contains target then
    probed
  else host.after (buildCommand settings) probed

theorem givenUpIn_disk {host : Host σ} (h : host.LeavesDisk) (settings : Settings) (target : Path)
    (w : World σ) : (givenUpIn host settings target w).disk = w.disk := by
  have hasked := h.after (askClangTidy settings.clangTidy) w
  have hprobed : (afterProbes host settings w).disk = w.disk := by
    unfold afterProbes
    split
    · exact hasked
    · exact (h.after askCmake _).trans hasked
  simp only [givenUpIn]
  split
  · rfl
  · split
    · exact hasked
    · split
      · exact hprobed
      · exact (h.after (buildCommand settings) _).trans hprobed

theorem explain_error (α : Type) (message : String) (e : SweepError) :
    ∃ failure, (explain message (.error e) : Except Failure α) = .error failure := by
  cases e <;> exact ⟨_, rfl⟩

section
variable (host : Host σ) (settings : Settings) (target : Path) (w : World σ)

theorem findPrograms_cases :
    ((∃ tool, findPrograms host settings w = (.ok tool, afterProbes host settings w)) ∧
      located host settings.clangTidy w = true ∧ (settings.dryRun = false →
        host.exitsZero askCmake (host.after (askClangTidy settings.clangTidy) w) = true)) ∨
    ((∃ failure, (findPrograms host settings w).1 = .error failure) ∧
      (located host settings.clangTidy w = false ∧
        (findPrograms host settings w).2 = host.after (askClangTidy settings.clangTidy) w ∨
      located host settings.clangTidy w = true ∧ settings.dryRun = false ∧
        host.exitsZero askCmake (host.after (askClangTidy settings.clangTidy) w) = false ∧
        (findPrograms host settings w).2 = afterProbes host settings w)) := by
  have hlocated := locateClangTidy_ok host settings.clangTidy w
  have hworld := locateClangTidy_world host settings.clangTidy w
  cases hl : (locateClangTidy host settings.clangTidy w).1 with
  | error e =>
    have hnot : located host settings.clangTidy w = false := by simpa [hl] using hlocated
    obtain ⟨failure, hfailure⟩ :=
      explain_error Path "clang-tidy not found; install LLVM or pass --clang-tidy" e
    refine .inr ⟨⟨failure, ?_⟩, .inl ⟨hnot, ?_⟩⟩
    · simp only [findPrograms, hl, hfailure]
    · simp only [findPrograms, hl, hworld, hfailure]
  | ok tool =>
    have hyes : located host settings.clangTidy w = true := hlocated.1 ⟨tool, hl⟩
    cases hdry : settings.dryRun with
    | true =>
      refine .inl ⟨⟨tool, ?_⟩, hyes, by simp⟩
      simp [findPrograms, hl, hworld, explain, afterProbes, hdry]
    | false =>
      cases hz : host.exitsZero askCmake (host.after (askClangTidy settings.clangTidy) w) with
      | true =>
        refine .inl ⟨⟨tool, ?_⟩, hyes, by simp⟩
        rw [askCmake] at hz
        simp [findPrograms, hl, hworld, explain, checkCmake, probe_eq, hz, afterProbes, askCmake, hdry]
      | false =>
        rw [askCmake] at hz
        refine .inr ⟨?_, .inr ⟨hyes, rfl, rfl, ?_⟩⟩
        · simp [findPrograms, hl, hworld, explain, checkCmake, probe_eq, hz, hdry]
        · simp [findPrograms, hl, hworld, explain, checkCmake, probe_eq, afterProbes, askCmake, hdry]

theorem commandBuild_eq (c : Command) (hc : c.words ≠ []) :
    commandBuild host c w = (host.exitsZero c w, host.after c w) :=
  Command.passes_eq host c hc w

variable {settings target w} in
theorem sweepTarget_swept (hthere : w.disk.contains target = true)
    (hconf : w.disk.isFile (settings.buildDir.child "CMakeCache.txt") = true) {tool : Path}
    {w' : World σ} (hfound : findPrograms host settings w = (.ok tool, w')) :
    ∃ analysis, sweepTarget host settings target w =
      (explain "Prune run failed"
          (sweep (commandBuild host (buildCommand settings)) analysis settings target w').1,
        (sweep (commandBuild host (buildCommand settings)) analysis settings target w').2.world) := by
  refine ⟨commandAnalysis host ⟨tool, settings.buildDir, systemFlags, settings.scanTimeout⟩, ?_⟩
  simp [sweepTarget, hthere, checkBuildDir, hconf, hfound, explain, buildCommand]

theorem sweepTarget_cases :
    ((∃ summary, (sweepTarget host settings target w).1 = .ok summary) ∧
      Prepared host settings target w ∧ settings.scanJobs ≤ FileScan.maxAtOnce) ∨
    ((∃ failure, (sweepTarget host settings target w).1 = .error failure) ∧
      ¬ (Prepared host settings target w ∧ settings.scanJobs ≤ FileScan.maxAtOnce) ∧
      (sweepTarget host settings target w).2 = givenUpIn host settings target w) := by
  cases hthere : w.disk.contains target with
  | false =>
    refine .inr ⟨by simp [sweepTarget, hthere], fun h => by simp [h.1.there] at hthere, ?_⟩
    simp [sweepTarget, givenUpIn, hthere]
  | true =>
    cases hconf : w.disk.isFile (settings.buildDir.child "CMakeCache.txt") with
    | false =>
      refine .inr ⟨?_, fun h => by simp [h.1.configured] at hconf, ?_⟩
      · simp [sweepTarget, hthere, checkBuildDir, hconf, explain]
      · simp [sweepTarget, givenUpIn, hthere, checkBuildDir, hconf, explain]
    | true =>
      rcases findPrograms_cases host settings w with
        ⟨⟨tool, hfound⟩, hlocated, hcmake⟩ | ⟨⟨failure, hfound⟩, hwhy⟩
      · obtain ⟨analysis, hswept⟩ := sweepTarget_swept host hthere hconf hfound
        have hcases := sweep_cases (commandBuild host (buildCommand settings)) analysis settings
          target (afterProbes host settings w)
        rw [commandBuild_eq host _ (buildCommand settings) (by simp [buildCommand, Command.forBuild])]
          at hcases
        rw [hswept]
        rcases hcases with ⟨⟨summary, hok⟩, hlasting, hbuilds, hcount⟩ | ⟨⟨e, herr⟩, hnot, hworld⟩
        · refine .inl ⟨⟨summary, ?_⟩, ⟨hthere, hconf, hlocated, hcmake, hlasting, hbuilds⟩, hcount⟩
          rw [hok, explain]
        · refine .inr ⟨?_, fun h => hnot ⟨h.1.lasting, h.1.builds, h.2⟩, ?_⟩
          · rw [herr]
            exact explain_error Summary "Prune run failed" e
          · rw [hworld]
            cases hdry : settings.dryRun with
            | true => simp [givenUpIn, hthere, hconf, hlocated, hdry]
            | false => simp [givenUpIn, hthere, hconf, hlocated, hdry, hcmake hdry]
      · refine .inr ⟨⟨failure, ?_⟩, ?_, ?_⟩
        · simp [sweepTarget, hthere, checkBuildDir, hconf, explain, hfound]
        · rcases hwhy with ⟨hnot, _⟩ | ⟨_, hdry, hnot, _⟩
          · exact fun h => by simp [h.1.located] at hnot
          · exact fun h => by simp [h.1.cmake hdry] at hnot
        · rcases hwhy with ⟨hnot, hworld⟩ | ⟨hlocated, _, hnot, hworld⟩
          · simp [sweepTarget, givenUpIn, hthere, checkBuildDir, hconf, explain, hfound, hnot, hworld]
          · simp [sweepTarget, givenUpIn, hthere, checkBuildDir, hconf, explain, hfound, hlocated,
              hnot, hworld]

end

/-- The exit code of a command line that can be read. It is zero exactly if the world is prepared and
no more scans are allowed at once than can be kept count of. Otherwise nothing was written: the
command has at most asked for its programs and made the first build, and if those leave the disk
alone it is as before. -/
theorem exit_code_settled_before_edits (host : Host σ) (processors : Nat)
    (environment : String → Option String) (times : RunTimes) {words : List String}
    {options : Options} (hread : Options.read words = .ok options) (w : World σ) :
    ((execute host processors environment times words w).1.exitCode = 0 ↔
      Prepared host (options.applyTo (Settings.ofEnvironment processors environment))
        (options.target.getD ⟨"."⟩) w ∧
      (options.applyTo (Settings.ofEnvironment processors environment)).scanJobs ≤
        FileScan.maxAtOnce) ∧
    ((execute host processors environment times words w).1.exitCode ≠ 0 →
      (execute host processors environment times words w).2 =
        givenUpIn host (options.applyTo (Settings.ofEnvironment processors environment))
          (options.target.getD ⟨"."⟩) w ∧
      (host.LeavesDisk →
        (execute host processors environment times words w).2.disk = w.disk)) := by
  unfold execute
  simp only [hread]
  rcases sweepTarget_cases host (options.applyTo (Settings.ofEnvironment processors environment))
      (options.target.getD ⟨"."⟩) w with
    ⟨⟨summary, hok⟩, hprepared⟩ | ⟨⟨failure, herr⟩, hnot, hworld⟩
  · rw [hok]
    exact ⟨iff_of_true rfl hprepared, fun h => absurd rfl h⟩
  · rw [herr, hworld]
    have hcode : failure.exitCode ≠ 0 := by cases failure <;> simp [Failure.exitCode]
    exact ⟨iff_of_false hcode hnot, fun _ => ⟨rfl, fun h => givenUpIn_disk h _ _ w⟩⟩

def rehearsedTools (script : Rehearsal.BuildScript) : Rehearsal.Programs :=
  let silent : Ending := ⟨ByteArray.empty, ByteArray.empty, .exited 0⟩
  let unused := "a.cc:1:1: warning: included header x.h is not used directly [misc-include-cleaner]\n"
  [("clang-tidy", ⟨silent, none, [("a.cc", ⟨Text.encode unused, ByteArray.empty, .exited 1⟩)], silent⟩),
   ("cmake", ⟨silent, some script, [], silent⟩)]

def configuredProject : World Rehearsal.CallLog :=
  ⟨⟨["src"],
    [(["src"], .dir),
     (["src", "a.cc"], .file 0o644 (Text.encode "#include <x.h>\nint a;\n")),
     (["src", "build"], .dir),
     (["src", "build", "CMakeCache.txt"], .file 0o644 ByteArray.empty)], []⟩, []⟩

/-- Tools with which the project does not build without its include. -/
def demandingTools : Rehearsal.Programs :=
  rehearsedTools ⟨false, [(⟨"a.cc"⟩, "#include <x.h>")], [], []⟩

/-- The builds after the first fail, and so does the analysis program with its report. -/
theorem exit_code_settled_before_edits_demandingTools :
    ∃ options, Options.read ["-j", "2", "a.cc"] = .ok options ∧
      (execute demandingTools.toHost 4 (fun _ => none) ⟨"", ""⟩ ["-j", "2", "a.cc"]
        configuredProject).1.exitCode = 0 ∧
      Prepared demandingTools.toHost (options.applyTo (Settings.ofEnvironment 4 fun _ => none))
        (options.target.getD ⟨"."⟩) configuredProject ∧
      (options.applyTo (Settings.ofEnvironment 4 fun _ => none)).scanJobs ≤ FileScan.maxAtOnce := by
  have hread : Options.read ["-j", "2", "a.cc"] =
      .ok { Options.none with target := some ⟨"a.cc"⟩, jobs := some 2 } := by rfl
  have hzero : (execute demandingTools.toHost 4 (fun _ => none) ⟨"", ""⟩ ["-j", "2", "a.cc"]
      configuredProject).1.exitCode = 0 := by decide +kernel
  exact ⟨_, hread, hzero, (exit_code_settled_before_edits demandingTools.toHost 4 (fun _ => none)
    ⟨"", ""⟩ hread configuredProject).1.1 hzero⟩

/-- A dry sweep with more scans at once than can be kept count of breaks off, though everything is
prepared. -/
theorem uncounted_scans_break_off :
    ∃ options, Options.read ["-n", "--scan-jobs=18446744073709551615", "a.cc"] = .ok options ∧
      Prepared demandingTools.toHost (options.applyTo (Settings.ofEnvironment 4 fun _ => none))
        (options.target.getD ⟨"."⟩) configuredProject ∧
      (execute demandingTools.toHost 4 (fun _ => none) ⟨"", ""⟩
        ["-n", "--scan-jobs=18446744073709551615", "a.cc"] configuredProject).1.exitCode = 101 := by
  have hread : Options.read ["-n", "--scan-jobs=18446744073709551615", "a.cc"] =
      .ok { Options.none with
        target := some ⟨"a.cc"⟩, dryRun := true, scanJobs := some 18446744073709551615 } := by
    rfl
  refine ⟨_, hread, ⟨?_, ?_, ?_, ?_, ?_, ?_⟩, ?_⟩
  · decide +kernel
  · decide +kernel
  · decide +kernel
  · decide +kernel
  · decide +kernel
  · decide +kernel
  · decide +kernel

end CommandLine

end IncludeSweep
