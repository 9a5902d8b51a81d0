import IncludeSweep.Failure

set_option autoImplicit false

/-! # The disk

A disk is a value: the entries of a file tree, each at a location, and the working directory from
which relative paths start. A location is the list of names that leads from the root to an entry
through real directories; links are entries of their own and occur in no location. The root is a
directory whatever the entries say. -/

namespace IncludeSweep

abbrev Location := List String

/-- The twelve permission bits of a file. Whoever works on the disk owns its files and has no
privileges. -/
abbrev Mode := Nat

def ownerReads (mode : Mode) : Bool :=
  mode &&& 0o400 != 0

def ownerWrites (mode : Mode) : Bool :=
  mode &&& 0o200 != 0

/-- The mode of a file after its content was changed in place: it no longer runs as its owner, nor
as its group if the group may run it. -/
def modeAfterWrite (mode : Mode) : Mode :=
  if mode &&& 0o010 != 0 then mode &&& 0o1777 else mode &&& 0o3777

-- Libraries bring a second way to compare byte arrays; entries are always compared by this one.
instance (priority := high) instDecidableEqBytes : DecidableEq ByteArray :=
  ByteArray.instDecidableEq

inductive Entry where
  | file (mode : Mode) (bytes : ByteArray)
  | link (target : Path)
  | dir
deriving DecidableEq

structure Disk where
  cwd : Location
  entries : List (Location × Entry)
  /-- The names at which no file can be put in the place of another, each with the reason: nothing
  can be made in its directory, say, or the disk is full. -/
  refusals : List (Location × SystemError)
deriving DecidableEq

namespace Disk

def get? (d : Disk) (loc : Location) : Option Entry :=
  if loc = [] then some .dir else d.entries.lookup loc

def putEntry (loc : Location) (e : Entry) : List (Location × Entry) → List (Location × Entry)
  | [] => [(loc, e)]
  | x :: xs => if x.1 = loc then (loc, e) :: xs else x :: putEntry loc e xs

def put (d : Disk) (loc : Location) (e : Entry) : Disk :=
  { d with entries := putEntry loc e d.entries }

def removeTree (d : Disk) (loc : Location) : Disk :=
  { d with entries := d.entries.filter fun x => !loc.isPrefixOf x.1 }

def makeDirs (d : Disk) (base : Location) : List String → Disk
  | [] => d
  | name :: names =>
    let loc := base ++ [name]
    let d := match d.get? loc with
      | none => d.put loc .dir
      | some _ => d
    d.makeDirs loc names

def empty (cwd : Location) : Disk :=
  makeDirs ⟨cwd, [], []⟩ [] cwd

def children (d : Disk) (loc : Location) : List String :=
  d.entries.filterMap fun x => if x.1.dropLast = loc then x.1.getLast? else none

def depth (d : Disk) : Nat :=
  d.entries.foldr (fun x n => max x.1.length n) 0

theorem lookup_putEntry (loc l : Location) (e : Entry) (xs : List (Location × Entry)) :
    (putEntry loc e xs).lookup l = if l = loc then some e else xs.lookup l := by
  induction xs with
  | nil =>
    by_cases h : l = loc
    · simp [putEntry, h]
    · have hb : (l == loc) = false := by simpa using h
      simp [putEntry, h, List.lookup_cons, hb]
  | cons x xs ih =>
    obtain ⟨k, v⟩ := x
    by_cases hk : k = loc
    · subst hk
      by_cases h : l = k
      · simp [putEntry, h]
      · have hb : (l == k) = false := by simpa using h
        simp [putEntry, h, List.lookup_cons, hb]
    · by_cases h : l = k
      · subst h
        simp [putEntry, hk]
      · have hb : (l == k) = false := by simpa using h
        simp [putEntry, hk, List.lookup_cons, hb, ih]

theorem get?_put (d : Disk) (loc l : Location) (e : Entry) (h : loc ≠ []) :
    (d.put loc e).get? l = if l = loc then some e else d.get? l := by
  unfold get? put
  by_cases hl : l = []
  · subst hl
    simp [Ne.symm h]
  · simp only [hl, if_false]
    exact lookup_putEntry loc l e d.entries

end Disk

end IncludeSweep
