import IncludeSweep.Verification.Session

set_option autoImplicit false

/-! # The tiers

A batch comments out several candidates and has one build judge them together. If the build passes
they are deleted; if it fails every file of the batch goes back to what it was.

Line by line, each candidate of a file gets a build of its own. Lines whose build passes are
confirmed and stay commented out in the file until one last write removes them all; a line counts as
committed only once it is gone from the file. -/

namespace IncludeSweep

variable {σ : Type}

/-- A file, with the snapshot taken of it if it is part of the batch. -/
abbrev Staged := OpenFile × Option Snapshot

/-- Comments out the candidates of the files, one file after the other. Stops, with `false`, at the
first file that cannot be written or has a candidate that cannot be commented out. -/
def stageAll : List OpenFile → Progress σ → Bool × List Staged × Progress σ
  | [], p => (true, [], p)
  | f :: fs, p =>
    match f.draft.comment p.disk f.remaining with
    | .error _ =>
      let given := f.giveUp .global p
      (false, (given.1, none) :: fs.map (·, none), given.2)
    | .ok (applied, draft, disk) =>
      let staged : Staged := ({ f with draft := draft }, some f.draft.snapshot)
      if applied.length = f.remaining.length then
        let rest := stageAll fs (p.withDisk disk)
        (rest.1, staged :: rest.2.1, rest.2.2)
      else (false, staged :: fs.map (·, none), p.withDisk disk)

def restoreAll : List Staged → Progress σ → List OpenFile × Progress σ
  | [], p => ([], p)
  | (f, none) :: rest, p =>
    let others := restoreAll rest p
    (f :: others.1, others.2)
  | (f, some s) :: rest, p =>
    let restored := f.restore s .global p
    let others := restoreAll rest restored.2
    (restored.1 :: others.1, others.2)

/-- Deletes the commented lines of one file of a batch that has passed. If the file cannot be written
it is put back and given up. Also says whether the lines are deleted. -/
def OpenFile.commit (f : OpenFile) (s : Snapshot) (tier : Tier) (p : Progress σ) :
    Bool × OpenFile × Progress σ :=
  match f.draft.delete p.disk with
  | .ok (lines, draft, disk) =>
    (true, ({ f with draft := draft } : OpenFile).conclude lines .committed tier (p.withDisk disk))
  | .error _ =>
    let restored := f.restore s tier p
    (false, restored.1.giveUp tier restored.2)

def commitAll : List Staged → Progress σ → List OpenFile × Progress σ
  | [], p => ([], p)
  | (f, none) :: rest, p =>
    let others := commitAll rest p
    (f :: others.1, others.2)
  | (f, some s) :: rest, p =>
    let committed := (f.commit s .global p).2
    let others := commitAll rest committed.2
    (committed.1 :: others.1, others.2)

/-- All candidates of all files with one build. A batch that cannot be staged as a whole is not worth
a build. -/
def judgeAll (build : Build σ) (files : List OpenFile) (p : Progress σ) :
    List OpenFile × Progress σ :=
  let staged := stageAll files p
  if staged.1 then
    let verdict := staged.2.2.verify build .global
    if verdict.1 then commitAll staged.2.1 verdict.2 else restoreAll staged.2.1 verdict.2
  else restoreAll staged.2.1 staged.2.2

def judgeFile (build : Build σ) (f : OpenFile) (p : Progress σ) : Bool × OpenFile × Progress σ :=
  if p.tainted then (false, f.giveUp .perFile p)
  else
    match f.draft.comment p.disk f.remaining with
    | .error _ => (false, f.giveUp .perFile p)
    | .ok (applied, draft, disk) =>
      let skipped := f.remaining.filter fun n => !applied.contains n
      let tried := ({ f with draft := draft } : OpenFile).conclude skipped .keptSkipped .perFile
        (p.withDisk disk)
      if applied = [] then (false, tried)
      else
        let verdict := tried.2.verify build .perFile
        if verdict.1 then tried.1.commit f.draft.snapshot .perFile verdict.2
        else (false, tried.1.restore f.draft.snapshot .perFile verdict.2)

/-- Tries the given lines in turn. Gives the confirmed ones after those in `confirmed`. -/
def tryLines (build : Build σ) :
    List Nat → List Nat → OpenFile → Progress σ → List Nat × OpenFile × Progress σ
  | [], confirmed, f, p => (confirmed, f, p)
  | n :: ns, confirmed, f, p =>
    if p.tainted then (confirmed, f.giveUp .sequential p)
    else
      match f.draft.comment p.disk [n] with
      | .error _ => (confirmed, f.giveUp .sequential p)
      | .ok (applied, draft, disk) =>
        if applied = [] then
          let skipped := f.conclude [n] .keptSkipped .sequential p
          tryLines build ns confirmed skipped.1 skipped.2
        else
          let verdict := (p.withDisk disk).verify build .sequential
          if verdict.1 then
            tryLines build ns (confirmed ++ [n])
              { f with draft := draft.confirm.2, remaining := f.remaining.erase n } verdict.2
          else
            match draft.rollback verdict.2.disk with
            | .ok (_, draft, disk) =>
              let kept := ({ f with draft := draft } : OpenFile).conclude [n] .keptBuildFailed
                .sequential (verdict.2.withDisk disk)
              tryLines build ns confirmed kept.1 kept.2
            | .error _ =>
              (confirmed, ({ f with draft := draft } : OpenFile).giveUp .sequential
                (verdict.2.taint draft.path))

/-- Writes the confirmed removals that are not in the file yet. If that fails the file is noted as
unrestored, once. -/
def OpenFile.flush (f : OpenFile) (p : Progress σ) : OpenFile × Progress σ :=
  if f.draft.unwritten then
    match f.draft.flush p.disk with
    | .ok (draft, disk) => ({ f with draft := draft }, p.withDisk disk)
    | .error _ =>
      if p.unrestored.any f.draft.path.same then (f, p)
      else (f, { p with unrestored := p.unrestored ++ [f.draft.path] })
  else (f, p)

def judgeLines (build : Build σ) (f : OpenFile) (p : Progress σ) : OpenFile × Progress σ :=
  let tried := tryLines build f.remaining [] f p
  if tried.1 = [] then tried.2
  else
    let flushed := tried.2.1.flush tried.2.2
    let gone := flushed.1.draft.removedOnDisk
    let removed := tried.1.filter fun n => gone.contains n
    let stuck := tried.1.filter fun n => !gone.contains n
    (flushed.1,
      flushed.1.note stuck .keptIoFailure .sequential
        (flushed.1.note removed .committed .sequential flushed.2))

end IncludeSweep
