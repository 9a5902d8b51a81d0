import IncludeSweep.Disk.Basic
import IncludeSweep.Text.Basic

set_option autoImplicit false

/-! # Paths on a disk

A path is followed segment by segment. Each segment but the last has to lead to a directory, and so
has the last one when a slash or a dot stands behind it. A link is followed by going on with the
segments of its target; at most forty links are followed on the way. -/

namespace IncludeSweep.Disk

/-- The longest name and the length at which a path is too long, in bytes. -/
def maxName : Nat := 255

def maxPath : Nat := 4096

def maxLinks : Nat := 40

inductive LastStep where
  | follow
  | stay
  /-- A link is followed, and a name may be missing. -/
  | reach
deriving DecidableEq, Repr

/-- Follows segments from a location. `onLink` is asked to go on at a link, with the directory that
holds the link, its target, and the segments behind it. -/
def walkWith (d : Disk) (last : LastStep)
    (onLink : Location → Path → List String → Except SystemError Location) :
    Location → List String → Except SystemError Location
  | loc, [] => .ok loc
  | loc, segment :: rest =>
    if d.get? loc ≠ some .dir then .error .notDirectory
    else if segment = "" ∨ segment = "." then walkWith d last onLink loc rest
    else if segment = ".." then walkWith d last onLink loc.dropLast rest
    else if maxName < segment.utf8ByteSize then .error .nameTooLong
    else
      match d.get? (loc ++ [segment]) with
      | none => if rest = [] ∧ last = .reach then .ok (loc ++ [segment]) else .error .notFound
      | some (.link target) =>
        if rest = [] ∧ last = .stay then .ok (loc ++ [segment]) else onLink loc target rest
      | some _ => walkWith d last onLink (loc ++ [segment]) rest

def walk (d : Disk) (last : LastStep) :
    (links : Nat) → Location → List String → Except SystemError Location
  | 0 => walkWith d last fun _ _ _ => .error .tooManyLinks
  | links + 1 => walkWith d last fun loc target rest =>
      walk d last links (if target.isAbsolute then [] else loc) (target.segments ++ rest)

def resolve (d : Disk) (last : LastStep) (p : Path) : Except SystemError Location :=
  if p.text.toList.contains '\x00' then .error .nulInPath
  else if p.text = "" then .error .notFound
  else if maxPath ≤ p.text.utf8ByteSize then .error .nameTooLong
  else walk d last maxLinks (if p.isAbsolute then [] else d.cwd) p.segments

def locate (d : Disk) (p : Path) : Except SystemError Location :=
  d.resolve .follow p

/-- The location a path names; a link at its end is not followed. -/
def locateName (d : Disk) (p : Path) : Except SystemError Location :=
  d.resolve .stay p

def landing (d : Disk) (p : Path) : Except SystemError Location :=
  d.resolve .reach p

def find? (d : Disk) (p : Path) : Option Entry :=
  match d.locate p with
  | .ok loc => d.get? loc
  | .error _ => none

def contains (d : Disk) (p : Path) : Bool :=
  (d.find? p).isSome

def isFile (d : Disk) (p : Path) : Bool :=
  match d.find? p with
  | some (.file _ _) => true
  | _ => false

def fileAt (d : Disk) (p : Path) : Except SystemError (Mode × ByteArray) :=
  match d.locate p with
  | .error e => .error e
  | .ok loc =>
    match d.get? loc with
    | some (.file mode bytes) => .ok (mode, bytes)
    | some .dir => .error .isDirectory
    | some (.link _) => .error .tooManyLinks
    | none => .error .notFound

def readBytes (d : Disk) (p : Path) : Except SystemError ByteArray :=
  match d.fileAt p with
  | .error e => .error e
  | .ok (mode, bytes) => if ownerReads mode then .ok bytes else .error .permissionDenied

def readText (d : Disk) (p : Path) : Except SystemError String :=
  match d.readBytes p with
  | .error e => .error e
  | .ok bytes =>
    match Text.decode bytes with
    | some text => .ok text
    | none => .error .invalidText

/-- The path at which a new file is made before it takes the place of the file at `p`: beside that
file, under a name of which the last six characters are drawn at random. -/
def scratchPath (d : Disk) (p : Path) : Path :=
  let cwd : Path := ⟨"/" ++ "/".intercalate d.cwd⟩
  let dir := p.directory
  (if dir.isAbsolute then dir else cwd.child dir.text).child ".tmpXXXXXX"

def refusal? (d : Disk) (p : Path) (name : Location) : Option SystemError :=
  if maxPath ≤ (d.scratchPath p).text.utf8ByteSize then some .nameTooLong
  else d.refusals.lookup name

/-- Replaces the file at a path as a whole, with the mode it had, unless the disk refuses to. The
new file takes the place of the name itself, so that a link there gives way to a regular file. -/
def replaceFile (d : Disk) (p : Path) (bytes : ByteArray) : Except SystemError Disk :=
  match d.fileAt p with
  | .error e => .error e
  | .ok (mode, _) =>
    match d.locateName p with
    | .error e => .error e
    | .ok name =>
      match d.refusal? p name with
      | some cause => .error cause
      | none => .ok (d.put name (.file mode bytes))

end IncludeSweep.Disk
