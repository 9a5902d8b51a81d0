import IncludeSweep.CommandLine.Run

set_option autoImplicit false

/-! # The program

The outer layer of the command: it reads the words and the environment, runs the command and prints
its reply. It opens no files and starts no programs, so the command runs as in an empty directory on
a machine without tools: options, help and version are answered in full, and a sweep ends at the
first thing it does not find. -/

namespace IncludeSweep

def bareHost : Host Unit where
  start _ _ w := (.error .notFound, w)
  ends _ _ _ h := nomatch h

def bareWorld : World Unit :=
  ⟨Disk.empty ["work"], ()⟩

/-- The number of processors assumed where it cannot be asked for. -/
def assumedProcessors : Nat := 4

def variableNames : List String :=
  ["INCPRUNE_BUILD_DIR", "INCPRUNE_CLANG_TIDY", "INCPRUNE_EXTENSIONS", "INCPRUNE_SCAN_JOBS",
    "INCPRUNE_JOBS", "INCPRUNE_BUILD_TIMEOUT", "INCPRUNE_SCAN_TIMEOUT"]

def readEnvironment : IO (List (String × String)) := do
  let values ← variableNames.mapM fun name => do
    return (← IO.getEnv name).map fun value => (name, value)
  return values.filterMap id

end IncludeSweep

open IncludeSweep in
def main (words : List String) : IO UInt32 := do
  let values ← readEnvironment
  let environment := fun name => values.lookup name
  let reply := (CommandLine.execute bareHost assumedProcessors environment ⟨"", ""⟩ words bareWorld).1
  (← IO.getStdout).putStr reply.stdout
  (← IO.getStderr).putStr reply.stderr
  return UInt32.ofNat reply.exitCode
