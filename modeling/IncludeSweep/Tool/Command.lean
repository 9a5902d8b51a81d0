import IncludeSweep.Report
import IncludeSweep.Text.Basic
import IncludeSweep.Text.Classes

set_option autoImplicit false

/-! # Commands

The command lines by which external programs are started, and what running them gives. A host starts
programs. `Command.execute` runs a command on a host, within its time limit, and decodes what the
program wrote. -/

namespace IncludeSweep

structure Command where
  name : String
  words : List String
  timeout : Nat
deriving DecidableEq, Repr

structure ScanParameters where
  tool : Path
  database : Path
  extraArguments : List String
  timeout : Nat
deriving DecidableEq, Repr

namespace Command

def program (c : Command) : Option String :=
  c.words.head?

def forBuild (buildDir : Path) (jobs timeout : Nat) : Command :=
  ⟨"cmake_build", ["cmake", "--build", buildDir.text, "-j", toString (max jobs 1)], timeout⟩

def forAnalysis (p : ScanParameters) (file : Path) : Command :=
  ⟨"clang_tidy",
    [p.tool.text, "-p", p.database.text,
      "-checks=-*,misc-include-cleaner,readability-duplicate-include", "--quiet"] ++
      p.extraArguments.map ("-extra-arg=" ++ ·) ++ [file.text],
    p.timeout⟩

def askVersion (program : Path) : Command :=
  ⟨program.text ++ "_version", [program.text, "--version"], 30⟩

end Command

structure Output where
  name : String
  /-- The exit code, -1 for a program killed by a signal. -/
  exitCode : Int
  stdout : String
  stderr : String
  success : Bool
deriving DecidableEq, Repr

def excerpt (text : String) (limit : Nat) : String :=
  let cs := Text.trimChars text.toList
  if cs.length ≤ limit then String.ofList cs
  else String.ofList (cs.take limit) ++ "\n… (truncated)"

namespace Output

def passed (o : Output) : Bool :=
  o.success && o.exitCode == 0

def combined (o : Output) (limit : Nat) : String :=
  excerpt
    (if o.stdout ≠ "" ∧ o.stderr ≠ "" then o.stdout ++ "\n" ++ o.stderr else o.stdout ++ o.stderr)
    limit

end Output

inductive ExitStatus where
  | exited (code : UInt8)
  | killed (signal : Nat)
  | lost (cause : SystemError)
  | unending
deriving DecidableEq, Repr

structure Ending where
  stdout : ByteArray
  stderr : ByteArray
  status : ExitStatus
deriving DecidableEq

/-- A host starts the program named by the first word with the other words as arguments, and waits
for its end for at most `limit` seconds, or for as long as it takes when the limit is zero. -/
structure Host (σ : Type) where
  start : (words : List String) → (limit : Nat) → World σ → Except SystemError Ending × World σ
  /-- Nothing is ever known of a program that never ends and has no limit, so there is none. -/
  ends : ∀ words w ending, (start words 0 w).1 = .ok ending → ending.status ≠ .unending

inductive CommandError where
  | emptyCommand (name : String)
  | spawn (name : String) (cause : SystemError)
  | timeout (name : String) (seconds : Nat)
  | wait (name : String) (cause : SystemError)
deriving DecidableEq, Repr

def CommandError.message : CommandError → String
  | emptyCommand name => name ++ " has an empty command"
  | spawn name cause => "failed to spawn " ++ name ++ ": " ++ cause.message
  | timeout name seconds => name ++ " timed out after " ++ toString seconds ++ " seconds"
  | wait name cause => "failed waiting for " ++ name ++ ": " ++ cause.message

namespace Command

variable {σ : Type}

def hasNul (words : List String) : Bool :=
  words.any fun word => word.toList.contains '\x00'

def output (c : Command) (ending : Ending) (exitCode : Int) : Output :=
  ⟨c.name, exitCode, Text.decodeLossy ending.stdout, Text.decodeLossy ending.stderr, exitCode == 0⟩

/-- A program that does not end by itself is stopped at the time limit. -/
def finish (c : Command) (ending : Ending) : Except CommandError Output :=
  match ending.status with
  | .exited code => .ok (c.output ending code.toNat)
  | .killed _ => .ok (c.output ending (-1))
  | .lost cause => .error (.wait c.name cause)
  | .unending => .error (.timeout c.name c.timeout)

def execute (host : Host σ) (c : Command) (w : World σ) :
    Except CommandError Output × World σ :=
  if c.words = [] then (.error (.emptyCommand c.name), w)
  else if hasNul c.words then (.error (.spawn c.name .nulInArgument), w)
  else
    let started := host.start c.words c.timeout w
    match started.1 with
    | .error cause => (.error (.spawn c.name cause), started.2)
    | .ok ending => (c.finish ending, started.2)

def passes (host : Host σ) (c : Command) (w : World σ) : Bool × World σ :=
  let result := c.execute host w
  (match result.1 with
    | .ok output => output.passed
    | .error _ => false,
    result.2)

end Command

end IncludeSweep
