import IncludeSweep.Path

set_option autoImplicit false

/-! # Failures

What the operating system refuses, and the errors that end a sweep. -/

namespace IncludeSweep

inductive SystemError where
  | notFound
  | permissionDenied
  | notDirectory
  | isDirectory
  | nameTooLong
  | tooManyLinks
  | invalidText
  | nulInPath
  | nulInArgument
  | other (text : String)
deriving DecidableEq, Repr

def SystemError.message : SystemError → String
  | notFound => "No such file or directory (os error 2)"
  | permissionDenied => "Permission denied (os error 13)"
  | notDirectory => "Not a directory (os error 20)"
  | isDirectory => "Is a directory (os error 21)"
  | nameTooLong => "File name too long (os error 36)"
  | tooManyLinks => "Too many levels of symbolic links (os error 40)"
  | invalidText => "stream did not contain valid UTF-8"
  | nulInPath => "file name contained an unexpected NUL byte"
  | nulInArgument => "nul byte found in provided data"
  | other text => text

inductive SweepError where
  | toolUnavailable (tool reason : String)
  | invalidBuildDir (path : Path)
  | targetNotFound (path : Path)
  | projectBroken
  | discovery (path : Path) (reason : String)
  | system (cause : SystemError)
  | tooManyScans (atOnce : Nat)
deriving DecidableEq, Repr

def SweepError.message : SweepError → String
  | toolUnavailable tool reason => "tool unavailable: " ++ tool ++ ": " ++ reason
  | invalidBuildDir path => path.text ++ " does not appear to be a valid CMake build directory"
  | targetNotFound path => "path does not exist: " ++ path.text
  | projectBroken => "initial build failed; fix build errors before running the cleaner"
  | discovery path reason => "failed to walk " ++ path.text ++ ": " ++ reason
  | system cause => "IO error: " ++ cause.message
  | tooManyScans atOnce => "cannot keep count of " ++ toString atOnce ++ " scans at once"

end IncludeSweep
