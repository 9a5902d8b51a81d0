import IncludeSweep.Scan
import IncludeSweep.Sources
import IncludeSweep.Verification.Run

set_option autoImplicit false

/-! # Sweeps

A sweep collects the sources of a target, has them analysed, and runs the candidates through the
builds. A dry sweep stops at the candidates: it makes no build and edits nothing. -/

namespace IncludeSweep

structure Summary where
  target : Path
  scanned : Nat
  candidates : List FileCandidates
  report : Option Report
deriving DecidableEq, Repr

namespace Summary

def candidateCount (s : Summary) : Nat :=
  s.candidates.foldl (fun n f => n + f.candidates.length) 0

def removed (s : Summary) : Nat :=
  match s.report with
  | some report => report.removed
  | none => 0

def isDryRun (s : Summary) : Bool :=
  s.report.isNone

end Summary

variable {σ : Type}

def findCandidates (atOnce : Nat) (analysis : Analysis σ) (files : List Path) (w : World σ) :
    Except SweepError (List FileCandidates) × World σ :=
  let scans := FileScan.all atOnce analysis files w
  (match scans.1 with
    | some found => .ok (found.filterMap (FileScan.candidates? scans.2.disk))
    | none => .error (.tooManyScans atOnce),
    scans.2)

/-- Sweeps a target. The untouched project is built before anything is scanned. -/
def sweep (build : Build σ) (analysis : Analysis σ) (settings : Settings) (target : Path)
    (w : World σ) : Except SweepError Summary × Session σ :=
  match Sources.collect w.disk settings target with
  | .error e => (.error e, .start w)
  | .ok files =>
    if settings.dryRun then
      let found := findCandidates settings.scanJobs analysis files w
      (match found.1 with
        | .ok candidates => .ok ⟨target, files.length, candidates, none⟩
        | .error e => .error e,
        .start found.2)
    else
      let checked := (Session.start w).checkProject build
      if checked.1 then
        let found := findCandidates settings.scanJobs analysis files checked.2.world
        match found.1 with
        | .error e => (.error e, { checked.2 with world := found.2 })
        | .ok candidates =>
          let result := run build candidates { checked.2 with world := found.2 }
          match result.1 with
          | some report => (.ok ⟨target, files.length, candidates, some report⟩, result.2)
          | none => (.error .projectBroken, result.2)
      else (.error .projectBroken, checked.2)

end IncludeSweep
