import IncludeSweep.CommandLine.Options
import IncludeSweep.Summary
import IncludeSweep.Tool.Toolchain

set_option autoImplicit false

/-! # The command

What the command prints and how it exits. Before a sweep the target, the build directory and the
programs are checked, in this order; the first that is missing ends the command. -/

namespace IncludeSweep.CommandLine

structure Reply where
  exitCode : Nat
  stdout : String
  stderr : String
deriving DecidableEq, Repr

inductive Failure where
  | reported (message : String) (cause : Option SweepError)
  | brokenOff (cause : SweepError)
deriving DecidableEq, Repr

def indent (text : String) : String :=
  "    " ++ String.ofList (text.toList.flatMap fun c => if c = '\n' then "\n    ".toList else [c])

def Failure.render : Failure → String
  | reported message (some cause) =>
    "Error: " ++ message ++ "\n\nCaused by:\n" ++ indent cause.message ++ "\n"
  | reported message none => "Error: " ++ message ++ "\n"
  | brokenOff cause => cause.message ++ "\n"

def Failure.exitCode : Failure → Nat
  | reported _ _ => 1
  | brokenOff _ => 101

def versionText : String := "incprune 0.1.0\n"

def usageText : String := "Usage: incprune [OPTIONS] [PATH]\n"

def helpText : String :=
  "Remove unused #include directives, verified by rebuilding\n\n" ++ usageText ++
  "\nArguments:\n" ++
  "  [PATH]  File or directory to clean [default: .]\n" ++
  "\nOptions:\n" ++
  "  -b, --build-dir <BUILD_DIR>          CMake build directory containing compile_commands.json\n" ++
  "  -n, --dry-run                        List candidates without modifying files or building\n" ++
  "  -v, --verbose                        Enable verbose output (tool output on failure, debug logs)\n" ++
  "      --json                           Print the summary as JSON\n" ++
  "      --json-logs                      Emit JSON-formatted log lines\n" ++
  "  -j, --jobs <JOBS>                    Build parallelism passed to `cmake --build -j`\n" ++
  "      --scan-jobs <SCAN_JOBS>          Maximum concurrent clang-tidy runs\n" ++
  "      --build-timeout <BUILD_TIMEOUT>  Build timeout in seconds (0 = none)\n" ++
  "      --scan-timeout <SCAN_TIMEOUT>    clang-tidy timeout per file in seconds (0 = none)\n" ++
  "      --clang-tidy <CLANG_TIDY>        Path to clang-tidy (discovered when omitted)\n" ++
  "      --ext <EXTS>                     Comma-separated source extensions scanned in directories\n" ++
  "  -h, --help                           Print help\n" ++
  "  -V, --version                        Print version\n"

variable {σ : Type}

/-- Adds to an error what was being done; scans that cannot be kept count of break the command
off. -/
def explain {α : Type} (message : String) : Except SweepError α → Except Failure α
  | .ok value => .ok value
  | .error (.tooManyScans atOnce) => .error (.brokenOff (.tooManyScans atOnce))
  | .error cause => .error (.reported message (some cause))

def findPrograms (host : Host σ) (settings : Settings) (w : World σ) :
    Except Failure Path × World σ :=
  let located := Prerequisites.locateClangTidy host settings.clangTidy w
  match explain "clang-tidy not found; install LLVM or pass --clang-tidy" located.1 with
  | .error failure => (.error failure, located.2)
  | .ok tool =>
    if settings.dryRun then (.ok tool, located.2)
    else
      let checked := Prerequisites.checkCmake host located.2
      (match explain "cmake is required to verify removals" checked.1 with
        | .error failure => .error failure
        | .ok _ => .ok tool,
        checked.2)

def sweepTarget (host : Host σ) (settings : Settings) (target : Path) (w : World σ) :
    Except Failure Summary × World σ :=
  if !w.disk.contains target then
    (.error (.reported ("Target path does not exist: " ++ target.text) none), w)
  else
    match explain (settings.buildDir.text
        ++ " is not a configured CMake build directory (run cmake first)")
        (Prerequisites.checkBuildDir w.disk settings.buildDir) with
    | .error failure => (.error failure, w)
    | .ok _ =>
      let found := findPrograms host settings w
      match found.1 with
      | .error failure => (.error failure, found.2)
      | .ok tool =>
        let parameters : ScanParameters :=
          ⟨tool, settings.buildDir, Prerequisites.systemFlags, settings.scanTimeout⟩
        let command := Command.forBuild settings.buildDir settings.buildJobs settings.buildTimeout
        let swept := sweep (commandBuild host command) (commandAnalysis host parameters) settings
          target found.2
        (explain "Prune run failed" swept.1, swept.2.world)

def printed (json : Bool) (times : RunTimes) (summary : Summary) : String :=
  (if json then (summary.toJson times).pretty else summary.prose) ++ "\n"

def execute (host : Host σ) (processors : Nat) (environment : String → Option String)
    (times : RunTimes) (words : List String) (w : World σ) : Reply × World σ :=
  match Options.read words with
  | .error .usage => (⟨2, "", "error: invalid command line\n\n" ++ usageText⟩, w)
  | .error .version => (⟨0, versionText, ""⟩, w)
  | .error .help => (⟨0, helpText, ""⟩, w)
  | .ok options =>
    let settings := options.applyTo (Settings.ofEnvironment processors environment)
    let swept := sweepTarget host settings (options.target.getD ⟨"."⟩) w
    (match swept.1 with
      | .ok summary => ⟨0, printed options.json times summary, ""⟩
      | .error failure => ⟨failure.exitCode, "", failure.render⟩,
      swept.2)

end IncludeSweep.CommandLine
