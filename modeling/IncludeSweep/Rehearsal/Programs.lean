import IncludeSweep.Disk.Edit
import IncludeSweep.Tool.Command

set_option autoImplicit false

/-! # Builds and programs to rehearse with

A stand-in for a real build passes while certain lines are present and not commented out; a script
can fail further builds and edit files while a build runs. Stand-ins for the external programs: a
program whose name has no slash is on the search path, one whose name has a slash is an executable
file at that path. -/

namespace IncludeSweep.Rehearsal

structure BuildScript where
  broken : Bool
  required : List (Path × String)
  /-- Further verdicts, one for each build; builds beyond them pass. -/
  verdicts : List Bool
  /-- Edits made while the build with the given number runs. -/
  edits : List (Nat × Edit)
deriving DecidableEq

def hasLiveLine (wanted text : String) : Bool :=
  (Text.lines text).any fun line => Text.trim line == Text.trim wanted && !Directive.commented line

namespace BuildScript

def check (script : BuildScript) (disk : Disk) : Bool :=
  !script.broken && script.required.all fun requirement =>
    match disk.readText requirement.1 with
    | .ok text => hasLiveLine requirement.2 text
    | .error _ => false

def editsAt (script : BuildScript) (n : Nat) : List Edit :=
  (script.edits.filter fun e => e.1 == n).map Prod.snd

/-- The build with number `n`: its verdict on a disk, and the disk after it. Builds count from
one. -/
def buildAt (script : BuildScript) (n : Nat) (disk : Disk) : Bool × Disk :=
  (script.check disk && script.verdicts.getD (n - 1) true, (script.editsAt n).foldl Disk.edit disk)

def toBuild (script : BuildScript) : Build Nat :=
  fun w =>
    let result := script.buildAt (w.outside + 1) w.disk
    (result.1, ⟨result.2, w.outside + 1⟩)

end BuildScript

structure Program where
  version : Ending
  build : Option BuildScript
  byFile : List (String × Ending)
  otherwise : Ending
deriving DecidableEq

abbrev CallLog := List (List String)

/-- The number of the build that comes next: builds are counted by the calls of the build program
with which a project is built, whichever program makes this one. -/
def CallLog.nextBuild (log : CallLog) : Nat :=
  1 + log.countP fun words => ["cmake", "--build"].isPrefixOf words

abbrev Programs := List (String × Program)

namespace Program

def buildEnding (passed : Bool) : Ending :=
  ⟨"build output\n".toUTF8, ByteArray.empty, .exited (if passed then 0 else 1)⟩

def call (p : Program) (n : Nat) (arguments : List String) (disk : Disk) : Ending × Disk :=
  if arguments = ["--version"] then (p.version, disk)
  else
    match p.build with
    | some script =>
      let result := script.buildAt n disk
      (buildEnding result.1, result.2)
    | none => ((arguments.getLast?.bind fun last => p.byFile.lookup last).getD p.otherwise, disk)

/-- What is seen of an ending. A program that does not end by itself is killed when no limit is
set. -/
def seenWithin (limit : Nat) (ending : Ending) : Ending :=
  if limit = 0 ∧ ending.status = .unending then { ending with status := .killed 9 } else ending

theorem seenWithin_zero (ending : Ending) : (seenWithin 0 ending).status ≠ .unending := by
  unfold seenWithin
  split
  · simp
  · rename_i h
    simpa using h

end Program

namespace Programs

def hasSlash (name : String) : Bool :=
  name.toList.contains '/'

def install (programs : Programs) (disk : Disk) : Disk :=
  (programs.filter fun p => hasSlash p.1).foldl
    (fun disk p => disk.create ⟨p.1⟩ (.file 0o755 ByteArray.empty)) disk

def listing (programs : Programs) (disk : Disk) : List (String × Entry) :=
  let installed := (programs.filter fun p => hasSlash p.1).map fun p => disk.spelled ⟨p.1⟩
  disk.listing.filter fun file => !installed.contains (disk.spelled ⟨file.1⟩)

/-- The program that a name stands for. A name with a slash is a path; what is there but is no
executable cannot be run. -/
def find (programs : Programs) (disk : Disk) (name : String) : Except SystemError (String × Program) :=
  if hasSlash name then
    match disk.locate ⟨name⟩ with
    | .error cause => .error cause
    | .ok loc =>
      match programs.find? fun p => hasSlash p.1 && disk.spelled ⟨p.1⟩ == loc with
      | some program => .ok program
      | none => .error .permissionDenied
  else if name = "." ∨ name = ".." then .error .permissionDenied
  else if Disk.maxName < name.utf8ByteSize then .error .nameTooLong
  else
    match programs.find? fun p => p.1 == name with
    | some program => .ok program
    | none => .error .notFound

def start (programs : Programs) (words : List String) (limit : Nat) (w : World CallLog) :
    Except SystemError Ending × World CallLog :=
  match words with
  | [] => (.error .notFound, w)
  | name :: arguments =>
    match programs.find w.disk name with
    | .error cause => (.error cause, w)
    | .ok (known, program) =>
      let called := program.call w.outside.nextBuild arguments w.disk
      (.ok (Program.seenWithin limit called.1), ⟨called.2, w.outside ++ [known :: arguments]⟩)

theorem start_ends (programs : Programs) (words : List String) (w : World CallLog) (ending : Ending)
    (h : (programs.start words 0 w).1 = .ok ending) : ending.status ≠ .unending := by
  unfold start at h
  split at h
  · exact nomatch h
  · split at h
    · exact nomatch h
    · obtain rfl := Except.ok.inj h
      exact Program.seenWithin_zero _

def toHost (programs : Programs) : Host CallLog :=
  ⟨programs.start, programs.start_ends⟩

end Programs

end IncludeSweep.Rehearsal
