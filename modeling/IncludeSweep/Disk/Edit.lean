import IncludeSweep.Disk.Resolve

set_option autoImplicit false

/-! # Edits from outside

Changes that something else makes to the disk while a sweep is under way, and the disk that a list
of files makes. -/

namespace IncludeSweep

inductive Edit where
  /-- Replaces the content; a directory in the way is removed first. -/
  | write (path : Path) (bytes : ByteArray)
  | append (path : Path) (bytes : ByteArray)
  | remove (path : Path)
  | makeDir (path : Path)
deriving DecidableEq

namespace Disk

def newFileMode : Mode := 0o644

def dirMode : Mode := 0o755

def mode? (d : Disk) (p : Path) : Option Mode :=
  match d.find? p with
  | some (.file mode _) => some mode
  | some .dir => some dirMode
  | _ => none

def spelled (d : Disk) (p : Path) : Location :=
  p.components.foldl
    (fun loc c => match c with
      | .root => []
      | .here => loc
      | .parent => loc.dropLast
      | .name name => loc ++ [name])
    d.cwd

def create (d : Disk) (p : Path) (e : Entry) : Disk :=
  match d.landing p with
  | .ok loc => d.put loc e
  | .error _ => (d.makeDirs [] (d.spelled p).dropLast).put (d.spelled p) e

/-- Writes a file in place. A file that its owner may not write stays as it is. -/
def writeFile (d : Disk) (p : Path) (bytes : ByteArray) : Disk :=
  match d.locate p with
  | .error _ => d.create p (.file newFileMode bytes)
  | .ok loc =>
    match d.get? loc with
    | some (.file mode _) =>
      if ownerWrites mode then d.put loc (.file (modeAfterWrite mode) bytes) else d
    | _ => (d.removeTree loc).put loc (.file newFileMode bytes)

def appendFile (d : Disk) (p : Path) (bytes : ByteArray) : Disk :=
  match d.fileAt p with
  | .ok (_, old) => if bytes.isEmpty then d else d.writeFile p (old ++ bytes)
  | .error _ => d.writeFile p bytes

def removeAt (d : Disk) (p : Path) : Disk :=
  match d.locateName p with
  | .error _ => d
  | .ok loc => d.removeTree loc

def setMode (d : Disk) (p : Path) (mode : Mode) : Disk :=
  match d.locate p with
  | .error _ => d
  | .ok loc =>
    match d.get? loc with
    | some (.file _ bytes) => d.put loc (.file (mode &&& 0o7777) bytes)
    | _ => d

def edit (d : Disk) : Edit → Disk
  | .write p bytes => d.writeFile p bytes
  | .append p bytes => d.appendFile p bytes
  | .remove p => d.removeAt p
  | .makeDir p => (d.removeAt p).create p .dir

def ofEntries (cwd : Location) (files : List (Path × Entry)) : Disk :=
  files.foldl (fun d f => d.create f.1 f.2) (empty cwd)

def listing (d : Disk) : List (String × Entry) :=
  d.entries.filterMap fun x =>
    if d.cwd.isPrefixOf x.1 then
      match x.2 with
      | .dir => none
      | e => some ("/".intercalate (x.1.drop d.cwd.length), e)
    else none

end Disk

end IncludeSweep
