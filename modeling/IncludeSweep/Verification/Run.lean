import IncludeSweep.Verification.Tiers

set_option autoImplicit false

/-! # Runs

A run takes a plan through the three tiers: all files at once, then file by file, then line by line.
A tier is entered only for what the one before has left unresolved. -/

namespace IncludeSweep

variable {σ : Type}

abbrev Plan := List FileCandidates

/-- Opens the files of a plan that have candidates. Gives the open files, and the outcomes of the
candidates whose file cannot be opened. -/
def openAll (disk : Disk) : Plan → List OpenFile × List Outcome
  | [] => ([], [])
  | file :: files =>
    let rest := openAll disk files
    if file.candidates = [] then rest
    else
      match Draft.read disk file.path with
      | .ok draft => (⟨draft, file.candidates, file.lines⟩ :: rest.1, rest.2)
      | .error _ => (rest.1, file.candidates.map (⟨·, .keptIoFailure, none⟩) ++ rest.2)

def refineFile (build : Build σ) (f : OpenFile) (p : Progress σ) : OpenFile × Progress σ :=
  if f.remaining = [] then (f, p)
  else if f.remaining.length < 2 then judgeLines build f p
  else
    let batch := judgeFile build f p
    if batch.1 || batch.2.1.remaining.isEmpty then batch.2
    else judgeLines build batch.2.1 batch.2.2

def refineAll (build : Build σ) : List OpenFile → Progress σ → List OpenFile × Progress σ
  | [], p => ([], p)
  | f :: fs, p =>
    let refined := refineFile build f p
    let others := refineAll build fs refined.2
    (refined.1 :: others.1, others.2)

def runPlan (build : Build σ) (plan : Plan) (s : Session σ) : List OpenFile × Progress σ :=
  let opened := openAll s.world.disk plan
  let p : Progress σ := { s with outcomes := opened.2, unrestored := [] }
  if opened.1 = [] then ([], p)
  else
    let batch := judgeAll build opened.1 p
    refineAll build batch.1 batch.2

def Progress.report (p : Progress σ) : Report :=
  ⟨stableSort Outcome.le p.outcomes, p.verifications, p.unrestored⟩

/-- Runs a plan and reports. Without a ready session the untouched project is built first; if that
fails there is no report and nothing was edited. -/
def run (build : Build σ) (plan : Plan) (s : Session σ) : Option Report × Session σ :=
  let checked := if s.ready then (true, s) else s.checkProject build
  if checked.1 then
    let p := (runPlan build plan checked.2).2
    (some p.report, p.toSession)
  else (none, checked.2)

end IncludeSweep
