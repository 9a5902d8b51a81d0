import IncludeSweep.Scan

set_option autoImplicit false

/-! # Analyses to rehearse with

Stand-ins for a real analysis: one flags given lines of given files in the usual shape of a warning,
the other gives a prepared result for each path. -/

namespace IncludeSweep.Rehearsal

variable {σ : Type}

/-- Flags lines of files, and fails on some files. Paths are compared by components. -/
structure Flagging where
  flags : List (Path × List Nat)
  failing : List Path
deriving DecidableEq, Repr

namespace Flagging

def empty : Flagging := ⟨[], []⟩

def flag (f : Flagging) (path : Path) (lines : List Nat) : Flagging :=
  { f with flags := f.flags ++ [(path, lines)] }

def fail (f : Flagging) (path : Path) : Flagging :=
  { f with failing := f.failing ++ [path] }

def linesOf (f : Flagging) (file : Path) : List Nat :=
  (f.flags.filter fun flagged => flagged.1.same file).flatMap Prod.snd

def warning (file : Path) (line : Nat) : String :=
  file.text ++ ":" ++ toString line
    ++ ":1: warning: included header fake.h is not used directly [misc-include-cleaner]\n"

def result (f : Flagging) (file : Path) : ScanResult :=
  if f.failing.any fun path => path.same file then
    .failed (.launch ("no analysis for " ++ file.text))
  else .output (String.join ((f.linesOf file).map (warning file)))

def toAnalysis (f : Flagging) : Analysis σ :=
  fun file w => (f.result file, w)

end Flagging

/-- Prepared results, looked up by the text of the path; a path without one has an empty output. -/
def prepared (results : List (String × ScanResult)) : Analysis σ :=
  fun file w => ((results.lookup file.text).getD (.output ""), w)

end IncludeSweep.Rehearsal
