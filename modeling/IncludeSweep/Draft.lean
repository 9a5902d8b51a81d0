import IncludeSweep.Candidate
import IncludeSweep.Digest
import IncludeSweep.Disk.Resolve

set_option autoImplicit false

/-! # Files under edit

A draft is one source file with a state for each of its lines. The lines stay as they were read, so
that line numbers never shift; the content to be written is rendered from lines and states. A write
replaces the file as a whole, and only if the file still has the digest of what this draft last read
or wrote. An operation that fails gives no new draft and no new disk: nothing has changed. -/

namespace IncludeSweep

/-- A line is as it was, commented out until a build has judged it, or gone for good. -/
inductive LineState where
  | intact
  | commentedOut
  | deleted
deriving DecidableEq, Repr

inductive EditError where
  | read (path : Path) (cause : SystemError)
  | write (path : Path) (cause : SystemError)
  | modified (path : Path)
deriving DecidableEq, Repr

def EditError.message : EditError → String
  | read path cause => "failed to read " ++ path.text ++ ": " ++ cause.message
  | write path cause => "failed to write " ++ path.text ++ ": " ++ cause.message
  | modified path => path.text ++ " was modified outside of incprune during the run"

structure Draft where
  path : Path
  lines : List String
  states : List LineState
  written : List LineState
  /-- The digest of the content this draft last read or wrote. -/
  digest : Digest
deriving DecidableEq

structure Snapshot where
  text : String
  states : List LineState
deriving DecidableEq, Repr

def commentMark : String := "// "

def LineState.render : LineState → String → String
  | intact, line => line
  | commentedOut, line => commentMark ++ line
  | deleted, _ => ""

def renderLines (lines : List String) (states : List LineState) : String :=
  String.join (List.zipWith (fun line state => state.render line) lines states)

def linesIn (wanted : LineState) (n : Nat) : List LineState → List Nat
  | [] => []
  | state :: states =>
    if state = wanted then n :: linesIn wanted (n + 1) states else linesIn wanted (n + 1) states

namespace Draft

def ofText (path : Path) (text : String) : Draft :=
  let lines := Text.rawLines text
  let states := lines.map fun _ => LineState.intact
  ⟨path, lines, states, states, IncludeSweep.digest (Text.encode text)⟩

def read (disk : Disk) (path : Path) : Except EditError Draft :=
  match disk.readText path with
  | .error cause => .error (.read path cause)
  | .ok text => .ok (ofText path text)

theorem read_of_readText {disk : Disk} {path : Path} {text : String}
    (h : disk.readText path = .ok text) : read disk path = .ok (ofText path text) := by
  simp only [read, h]

def state? (d : Draft) (line : Nat) : Option LineState :=
  Text.nth? d.states line

def pending (d : Draft) : List Nat :=
  linesIn .commentedOut 1 d.states

def deleted (d : Draft) : List Nat :=
  linesIn .deleted 1 d.states

def removedOnDisk (d : Draft) : List Nat :=
  linesIn .deleted 1 d.written

def unwritten (d : Draft) : Bool :=
  d.states != d.written

def render (d : Draft) : String :=
  renderLines d.lines d.states

def snapshot (d : Draft) : Snapshot :=
  ⟨d.render, d.states⟩

/-- Replaces the file by a text, if it is still the file this draft knows. -/
def replaceText (d : Draft) (disk : Disk) (text : String) : Except EditError (Draft × Disk) :=
  match disk.readBytes d.path with
  | .error cause => .error (.read d.path cause)
  | .ok bytes =>
    if IncludeSweep.digest bytes ≠ d.digest then .error (.modified d.path)
    else
      match disk.replaceFile d.path (Text.encode text) with
      | .error cause => .error (.write d.path cause)
      | .ok disk => .ok ({ d with digest := IncludeSweep.digest (Text.encode text) }, disk)

def flush (d : Draft) (disk : Disk) : Except EditError (Draft × Disk) :=
  match d.replaceText disk d.render with
  | .error e => .error e
  | .ok (d, disk) => .ok ({ d with written := d.states }, disk)

def removable (lines : List String) (states : List LineState) (n : Nat) : Bool :=
  match Text.nth? lines n, Text.nth? states n with
  | some line, some .intact => Directive.live (Text.stripTerminator line)
  | _, _ => false

def mark (lines : List String) : List Nat → List LineState → List LineState × List Nat
  | [], states => (states, [])
  | n :: ns, states =>
    if removable lines states n then
      let rest := mark lines ns (states.set (n - 1) .commentedOut)
      (rest.1, n :: rest.2)
    else mark lines ns states

/-- Comments out the listed lines that still hold a live directive, with one write if there are any.
Gives the lines that were commented out. -/
def comment (d : Draft) (disk : Disk) (lines : List Nat) : Except EditError (List Nat × Draft × Disk) :=
  let marked := mark d.lines lines d.states
  if marked.2 = [] then .ok ([], d, disk)
  else
    match ({ d with states := marked.1 } : Draft).flush disk with
    | .error e => .error e
    | .ok (d, disk) => .ok (marked.2, d, disk)

def settle (replacement : LineState) (states : List LineState) : List LineState :=
  states.map fun state => if state = .commentedOut then replacement else state

/-- Turns the pending lines into deleted ones, without a write. Gives those lines. -/
def confirm (d : Draft) : List Nat × Draft :=
  (d.pending, { d with states := settle .deleted d.states })

def delete (d : Draft) (disk : Disk) : Except EditError (List Nat × Draft × Disk) :=
  match d.confirm.2.flush disk with
  | .error e => .error e
  | .ok (d', disk) => .ok (d.pending, d', disk)

def rollback (d : Draft) (disk : Disk) : Except EditError (List Nat × Draft × Disk) :=
  if d.pending = [] then .ok ([], d, disk)
  else
    match ({ d with states := settle .intact d.states } : Draft).flush disk with
    | .error e => .error e
    | .ok (d', disk) => .ok (d.pending, d', disk)

def revert (d : Draft) (disk : Disk) (s : Snapshot) : Except EditError (Draft × Disk) :=
  match d.replaceText disk s.text with
  | .error e => .error e
  | .ok (d, disk) => .ok ({ d with states := s.states, written := s.states }, disk)

end Draft

end IncludeSweep
