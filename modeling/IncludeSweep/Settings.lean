import IncludeSweep.Path
import IncludeSweep.Text.Basic
import IncludeSweep.Text.Case
import IncludeSweep.Text.Classes

set_option autoImplicit false

/-! # Settings

What a sweep is run with: defaults, then the environment, then the command line. -/

namespace IncludeSweep

structure Settings where
  buildDir : Path
  clangTidy : Option Path
  extensions : List String
  scanJobs : Nat
  buildJobs : Nat
  /-- Time limit of one build in seconds, none when zero. -/
  buildTimeout : Nat
  scanTimeout : Nat
  dryRun : Bool
  verbose : Bool
deriving DecidableEq, Repr

namespace Settings

def initial (processors : Nat) : Settings where
  buildDir := ⟨"build"⟩
  clangTidy := none
  extensions := ["cc", "cpp"]
  scanJobs := processors
  buildJobs := processors
  buildTimeout := 3600
  scanTimeout := 300
  dryRun := false
  verbose := false

def normalExtension (piece : String) : String :=
  Text.lowercase (String.ofList ((Text.trim piece).toList.dropWhile (· == '.')))

def readExtensions (raw : String) : List String :=
  (((raw.toList.splitOn ',').map String.ofList).map normalExtension).filter (· != "")

def accepts (s : Settings) (extension : String) : Bool :=
  s.extensions.any (Text.sameIgnoringCase · extension)

/-- A number in the environment may have white space around it; anything else is as if unset. -/
def readVariable (environment : String → Option String) (name : String) : Option Nat :=
  (environment name).bind fun raw => Text.readNumber (Text.trim raw)

def ofEnvironment (processors : Nat) (environment : String → Option String) : Settings :=
  let base := initial processors
  { base with
    buildDir := ((environment "INCPRUNE_BUILD_DIR").map Path.mk).getD base.buildDir
    clangTidy := ((environment "INCPRUNE_CLANG_TIDY").map Path.mk).or base.clangTidy
    extensions := ((environment "INCPRUNE_EXTENSIONS").map readExtensions).getD base.extensions
    scanJobs := ((readVariable environment "INCPRUNE_SCAN_JOBS").map (max 1)).getD base.scanJobs
    buildJobs := ((readVariable environment "INCPRUNE_JOBS").map (max 1)).getD base.buildJobs
    buildTimeout := (readVariable environment "INCPRUNE_BUILD_TIMEOUT").getD base.buildTimeout
    scanTimeout := (readVariable environment "INCPRUNE_SCAN_TIMEOUT").getD base.scanTimeout }

end Settings

end IncludeSweep
