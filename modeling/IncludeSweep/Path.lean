set_option autoImplicit false

/-! # Paths

A path is kept as the text it was given as. Two paths are the same when they have the same
components: repeated and trailing slashes do not count, and a single dot counts only at the very
start of a relative path. The order of paths is that of their components. -/

namespace IncludeSweep

structure Path where
  text : String
deriving DecidableEq, Repr

inductive Component where
  | root
  | here
  | parent
  | name (name : String)
deriving DecidableEq, Repr

namespace Component

def rank : Component → Nat
  | root => 0
  | here => 1
  | parent => 2
  | name _ => 3

/-- The root comes first, then the dot, then the parent, then the names in the order of their
characters. -/
def order : Component → Component → Ordering
  | name s, name t => compare s t
  | a, b => compare a.rank b.rank

end Component

namespace Path

def isAbsolute (p : Path) : Bool :=
  p.text.toList.head? == some '/'

def segments (p : Path) : List String :=
  (p.text.toList.splitOn '/').map String.ofList

def segmentComponent (segment : String) : Option Component :=
  if segment = "" then none
  else if segment = "." then none
  else if segment = ".." then some .parent
  else some (.name segment)

def components (p : Path) : List Component :=
  if p.isAbsolute then .root :: p.segments.filterMap segmentComponent
  else if p.segments.head? = some "." then .here :: p.segments.filterMap segmentComponent
  else p.segments.filterMap segmentComponent

def same (p q : Path) : Bool :=
  p.components == q.components

def orderComponents : List Component → List Component → Ordering
  | [], [] => .eq
  | [], _ :: _ => .lt
  | _ :: _, [] => .gt
  | a :: as, b :: bs => (a.order b).then (orderComponents as bs)

def order (p q : Path) : Ordering :=
  orderComponents p.components q.components

def le (p q : Path) : Bool :=
  (p.order q).isLE

def fileName (p : Path) : Option String :=
  match p.components.getLast? with
  | some (.name name) => some name
  | _ => none

/-- What follows the last dot of a name; a dot at the very start does not count. -/
def nameExtension (name : String) : Option String :=
  let cs := name.toList.reverse
  match cs.dropWhile (· != '.') with
  | [] => none
  | [_] => none
  | _ :: _ :: _ => some (String.ofList (cs.takeWhile (· != '.')).reverse)

/-- The directory of the file at a path: all before the last segment, without the slashes and
single dots at its end. -/
def directory (p : Path) : Path :=
  let kept := (p.segments.dropLast.reverse.dropWhile fun s => s = "" ∨ s = ".").reverse
  if kept ≠ [] then ⟨"/".intercalate kept⟩
  else if p.isAbsolute then ⟨"/"⟩
  else ⟨"."⟩

def child (p : Path) (name : String) : Path :=
  if p.text = "" then ⟨name⟩
  else if p.text.toList.getLast? = some '/' then ⟨p.text ++ name⟩
  else ⟨p.text ++ "/" ++ name⟩

end Path

end IncludeSweep
