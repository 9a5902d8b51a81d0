import IncludeSweep.Draft
import IncludeSweep.Report

set_option autoImplicit false

/-! # Sessions

A session is what lasts from one run to the next: the world, whether the untouched project was seen
to build, whether a file was left in an unverified state, and the builds so far. `Progress` adds what
one run has settled, and `OpenFile` is one file of its plan. -/

namespace IncludeSweep

structure Session (σ : Type) where
  world : World σ
  ready : Bool
  /-- Some file could not be put back to its last verified content. -/
  tainted : Bool
  verifications : Nat
  trials : List Trial
deriving DecidableEq

/-- A session within a run, with the outcomes and the unrestored files of that run. -/
structure Progress (σ : Type) extends Session σ where
  outcomes : List Outcome
  unrestored : List Path
deriving DecidableEq

/-- A file of the plan: its draft, its candidates, and the lines not yet resolved. -/
structure OpenFile where
  draft : Draft
  candidates : List Candidate
  remaining : List Nat
deriving DecidableEq

namespace Session

variable {σ : Type}

def start (world : World σ) : Session σ :=
  ⟨world, false, false, 0, []⟩

def runBuild (build : Build σ) (tier : Option Tier) (s : Session σ) : Bool × Session σ :=
  let result := build s.world
  (result.1,
    { s with world := result.2, trials := s.trials ++ [⟨tier, s.world.disk, result.1⟩] })

def checkProject (build : Build σ) (s : Session σ) : Bool × Session σ :=
  let result := s.runBuild build none
  (result.1, { result.2 with ready := s.ready || result.1 })

end Session

namespace Progress

variable {σ : Type}

def disk (p : Progress σ) : Disk :=
  p.world.disk

def withDisk (p : Progress σ) (disk : Disk) : Progress σ :=
  { p with world := { p.world with disk := disk } }

def verify (build : Build σ) (tier : Tier) (p : Progress σ) : Bool × Progress σ :=
  let result := p.toSession.runBuild build (some tier)
  (result.1, { p with toSession := { result.2 with verifications := p.verifications + 1 } })

/-- A file stuck in an unverified state makes every later build meaningless. -/
def taint (p : Progress σ) (path : Path) : Progress σ :=
  { p with tainted := true, unrestored := p.unrestored ++ [path] }

end Progress

namespace OpenFile

variable {σ : Type}

def outcomesAt (f : OpenFile) (lines : List Nat) (resolution : Resolution) (tier : Tier) :
    List Outcome :=
  lines.filterMap fun n =>
    (f.candidates.find? fun c => c.line == n).map fun c => ⟨c, resolution, some tier⟩

/-- Takes lines out of the unresolved ones, once each. Gives those that were there and what is
left. -/
def takeLines : List Nat → List Nat → List Nat × List Nat
  | [], remaining => ([], remaining)
  | n :: ns, remaining =>
    if n ∈ remaining then
      let rest := takeLines ns (remaining.erase n)
      (n :: rest.1, rest.2)
    else takeLines ns remaining

def note (f : OpenFile) (lines : List Nat) (resolution : Resolution) (tier : Tier)
    (p : Progress σ) : Progress σ :=
  { p with outcomes := p.outcomes ++ f.outcomesAt lines resolution tier }

def conclude (f : OpenFile) (lines : List Nat) (resolution : Resolution) (tier : Tier)
    (p : Progress σ) : OpenFile × Progress σ :=
  let taken := takeLines lines f.remaining
  ({ f with remaining := taken.2 }, f.note taken.1 resolution tier p)

def giveUp (f : OpenFile) (tier : Tier) (p : Progress σ) : OpenFile × Progress σ :=
  f.conclude f.remaining .keptIoFailure tier p

/-- Puts the file back to a snapshot; if that fails, poisons the session and gives the file up. -/
def restore (f : OpenFile) (s : Snapshot) (tier : Tier) (p : Progress σ) :
    OpenFile × Progress σ :=
  match f.draft.revert p.disk s with
  | .ok (draft, disk) => ({ f with draft := draft }, p.withDisk disk)
  | .error _ => f.giveUp tier (p.taint f.draft.path)

end OpenFile

end IncludeSweep
