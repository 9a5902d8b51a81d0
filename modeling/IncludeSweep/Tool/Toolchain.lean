import IncludeSweep.Failure
import IncludeSweep.Scan
import IncludeSweep.Tool.Command

set_option autoImplicit false

/-! # The toolchain

Programs as builds and analyses; which programs a sweep uses, and whether the build directory is a
configured one. -/

namespace IncludeSweep

variable {σ : Type}

def commandBuild (host : Host σ) (c : Command) : Build σ :=
  fun w => c.passes host w

def quotedErrorLimit : Nat := 800

/-- What a run of the analysis program means. A program that fails may still have reported
something; only a blank output counts as a failed scan then. -/
def scanResultOf : Except CommandError Output → ScanResult
  | .error (.timeout _ seconds) => .failed (.timeout seconds)
  | .error e => .failed (.launch e.message)
  | .ok output =>
    if !output.passed && Text.isBlank output.stdout then
      .failed (.noOutput output.exitCode (excerpt output.stderr quotedErrorLimit))
    else .output output.stdout

def commandAnalysis (host : Host σ) (p : ScanParameters) : Analysis σ :=
  fun file w =>
    let result := (Command.forAnalysis p file).execute host w
    (scanResultOf result.1, result.2)

namespace Prerequisites

variable {σ : Type}

def probe (host : Host σ) (program : Path) (w : World σ) : Bool × World σ :=
  (Command.askVersion program).passes host w

def clangTidyLocations : List Path :=
  [⟨"/usr/local/opt/llvm/bin/clang-tidy"⟩, ⟨"/opt/homebrew/opt/llvm/bin/clang-tidy"⟩,
    ⟨"/usr/bin/clang-tidy"⟩, ⟨"/usr/local/bin/clang-tidy"⟩]

/-- An explicit program has to run; otherwise the search path is tried, then the usual places. -/
def locateClangTidy (host : Host σ) (explicit : Option Path) (w : World σ) :
    Except SweepError Path × World σ :=
  match explicit with
  | some path =>
    let probed := probe host path w
    (if probed.1 then .ok path
      else .error (.toolUnavailable path.text "configured clang-tidy does not run"), probed.2)
  | none =>
    let probed := probe host ⟨"clang-tidy"⟩ w
    (if probed.1 then .ok ⟨"clang-tidy"⟩
      else
        match clangTidyLocations.find? probed.2.disk.contains with
        | some path => .ok path
        | none =>
          .error (.toolUnavailable "clang-tidy" "not found on PATH or in common LLVM locations"),
      probed.2)

def checkCmake (host : Host σ) (w : World σ) : Except SweepError Unit × World σ :=
  let probed := probe host ⟨"cmake"⟩ w
  (if probed.1 then .ok () else .error (.toolUnavailable "cmake" "`cmake --version` failed"),
    probed.2)

def checkBuildDir (disk : Disk) (buildDir : Path) : Except SweepError Unit :=
  if disk.isFile (buildDir.child "CMakeCache.txt") then .ok () else .error (.invalidBuildDir buildDir)

def systemFlags : List String := []

end Prerequisites

end IncludeSweep
