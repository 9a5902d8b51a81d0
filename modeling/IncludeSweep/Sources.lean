import IncludeSweep.Disk.Resolve
import IncludeSweep.Failure
import IncludeSweep.Settings
import IncludeSweep.Sorting

set_option autoImplicit false

/-! # Source files

The files that a target stands for. A file stands for itself, whatever its name. A directory stands
for the regular files below it whose extension is configured. Hidden names, links and the build
directory are passed over; a build directory that holds the target itself excludes nothing. -/

namespace IncludeSweep.Sources

def isHidden (name : String) : Bool :=
  name.toList.head? == some '.'

def namesInOrder (names : List String) : List String :=
  stableSort (fun s t => (compare s t).isLE) names

def isExcluded (disk : Disk) (excluded : Option Location) (dir : Location) (name : String) : Bool :=
  match excluded, disk.walk .follow Disk.maxLinks dir [name] with
  | some base, .ok loc => base.isPrefixOf loc
  | _, _ => false

def hasExtension (settings : Settings) (name : String) : Bool :=
  match Path.nameExtension name with
  | some extension => settings.accepts extension
  | none => false

/-- The sources below a directory at most `depth` levels down, each directory in the order of its
names. `path` is the path by which the directory was reached. -/
def below (disk : Disk) (settings : Settings) (excluded : Option Location) :
    (depth : Nat) → Location → Path → List Path
  | 0, _, _ => []
  | depth + 1, dir, path =>
    (namesInOrder (disk.children dir)).flatMap fun name =>
      if isHidden name || isExcluded disk excluded dir name then []
      else
        match disk.get? (dir ++ [name]) with
        | some .dir => below disk settings excluded depth (dir ++ [name]) (path.child name)
        | some (.file _ _) => if hasExtension settings name then [path.child name] else []
        | _ => []

/-- The location of the build directory, unless it does not exist or the target lies in it. -/
def excludedFrom (disk : Disk) (buildDir : Path) (target : Location) : Option Location :=
  match disk.locate buildDir with
  | .ok base => if base.isPrefixOf target then none else some base
  | .error _ => none

def collect (disk : Disk) (settings : Settings) (target : Path) : Except SweepError (List Path) :=
  if !disk.contains target then .error (.targetNotFound target)
  else if disk.isFile target then .ok [target]
  else
    match disk.locate target with
    | .error cause => .error (.system cause)
    | .ok dir =>
      .ok (below disk settings (excludedFrom disk settings.buildDir dir) disk.depth dir target)

end IncludeSweep.Sources
