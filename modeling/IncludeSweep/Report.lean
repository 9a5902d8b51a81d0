import IncludeSweep.Candidate
import IncludeSweep.Disk.Resolve

set_option autoImplicit false

/-! # Builds and reports

Builds and analyses belong to the world outside: the disk, and whatever else the outside keeps
between two calls, of which nothing is assumed. A report says what became of every candidate of a run
and of the files it touched. -/

namespace IncludeSweep

/-- How many lines a build judges at once: those of all files, those of one file, or one line. -/
inductive Tier where
  | global
  | perFile
  | sequential
deriving DecidableEq, Repr

structure World (σ : Type) where
  disk : Disk
  outside : σ
deriving DecidableEq

abbrev Build (σ : Type) := World σ → Bool × World σ

/-- One build that was run: what it was for, the disk it saw when it started, and its verdict. -/
structure Trial where
  /-- None for the build before the first edit. -/
  tier : Option Tier
  disk : Disk
  passed : Bool
deriving DecidableEq

inductive Resolution where
  | committed
  | keptBuildFailed
  /-- No longer a live directive when its turn came. -/
  | keptSkipped
  | keptIoFailure
deriving DecidableEq, Repr

structure Outcome where
  candidate : Candidate
  resolution : Resolution
  /-- The tier that resolved the candidate; none if its file could not be opened. -/
  tier : Option Tier
deriving DecidableEq, Repr

namespace Outcome

def isCommitted (o : Outcome) : Bool :=
  o.resolution == .committed

def order (o p : Outcome) : Ordering :=
  (o.candidate.path.order p.candidate.path).then (compare o.candidate.line p.candidate.line)

def le (o p : Outcome) : Bool :=
  (o.order p).isLE

end Outcome

structure Report where
  outcomes : List Outcome
  /-- The builds so far, the one before the first edit not counted. -/
  verifications : Nat
  unrestored : List Path
deriving DecidableEq, Repr

namespace Report

def committedOutcomes (r : Report) : List Outcome :=
  r.outcomes.filter Outcome.isCommitted

def committed (r : Report) : List Candidate :=
  r.committedOutcomes.map Outcome.candidate

def removed (r : Report) : Nat :=
  r.committedOutcomes.length

def kept (r : Report) : Nat :=
  r.outcomes.length - r.removed

def removedAt (r : Report) (tier : Tier) : Nat :=
  (r.outcomes.filter fun o => o.isCommitted && o.tier == some tier).length

end Report

end IncludeSweep
