import IncludeSweep.Candidate
import IncludeSweep.Diagnostic
import IncludeSweep.Report

set_option autoImplicit false

/-! # Scans

An analysis looks at one file and gives text. A scan of several files takes from each output the
lines it reports for its own file. A scan that fails or is aborted reports nothing and harms no
other. -/

namespace IncludeSweep

inductive ScanError where
  | launch (reason : String)
  | timeout (seconds : Nat)
  | noOutput (exitCode : Int) (stderr : String)
deriving DecidableEq, Repr

def ScanError.message : ScanError → String
  | launch reason => "failed to launch analysis tool: " ++ reason
  | timeout seconds => "analysis timed out after " ++ toString seconds ++ " seconds"
  | noOutput exitCode stderr =>
    "analysis exited with code " ++ toString exitCode ++ " and produced no output: " ++ stderr

inductive ScanResult where
  | output (text : String)
  | failed (error : ScanError)
  | aborted
deriving DecidableEq, Repr

abbrev Analysis (σ : Type) := Path → World σ → ScanResult × World σ

structure FileScan where
  path : Path
  lines : List Nat
deriving DecidableEq, Repr

namespace FileScan

variable {σ : Type}

def ofResult (file : Path) : ScanResult → FileScan
  | .output text => ⟨file, Diagnostic.reportedLines file text⟩
  | _ => ⟨file, []⟩

def each (analysis : Analysis σ) : List Path → World σ → List FileScan × World σ
  | [], w => ([], w)
  | file :: files, w =>
    let result := analysis file w
    let rest := each analysis files result.2
    (ofResult file result.1 :: rest.1, rest.2)

def inOrder (scans : List FileScan) : List FileScan :=
  stableSort (fun a b => a.path.le b.path) scans

def maxAtOnce : Nat := Nat.pow 2 61 - 1

/-- One scan for each file, in the order of paths. Nothing is scanned if more scans than can be kept
count of are allowed to run at once; up to there their number does not matter. -/
def all (atOnce : Nat) (analysis : Analysis σ) (files : List Path) (w : World σ) :
    Option (List FileScan) × World σ :=
  if maxAtOnce < atOnce then (none, w)
  else
    let scans := each analysis files w
    (some (inOrder scans.1), scans.2)

def candidates? (disk : Disk) (scan : FileScan) : Option FileCandidates :=
  if scan.lines = [] then none
  else
    match disk.readText scan.path with
    | .error _ => none
    | .ok text =>
      let found := FileCandidates.select scan.path scan.lines text
      if found.candidates = [] then none else some found

end FileScan

end IncludeSweep
