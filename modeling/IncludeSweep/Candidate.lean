import IncludeSweep.Path
import IncludeSweep.Sorting
import IncludeSweep.Text.Basic
import IncludeSweep.Text.Classes
import IncludeSweep.Text.Word

set_option autoImplicit false

/-! # Include directives and candidate lines

A directive is recognised anywhere in a line; a line that starts with a comment is never live. A
candidate is an include line that an analysis reported as removable. Analyses report line numbers;
`FileCandidates.select` holds them against the content of the file. -/

namespace IncludeSweep

namespace Directive

def isKeyword (cs : List Char) : Bool :=
  match Text.dropStart? "include".toList (Text.trimStartChars cs) with
  | none => false
  | some rest =>
    Text.endsWord rest ||
      match Text.dropStart? "_next".toList rest with
      | none => false
      | some rest => Text.endsWord rest

def mentionedIn : List Char → Bool
  | [] => false
  | c :: cs => (c == '#' && isKeyword cs) || mentionedIn cs

def mentioned (line : String) : Bool :=
  mentionedIn line.toList

/-- The line starts, after white space, with a line comment or a block comment. -/
def commented (line : String) : Bool :=
  let cs := Text.trimStartChars line.toList
  "//".toList.isPrefixOf cs || "/*".toList.isPrefixOf cs

def live (line : String) : Bool :=
  mentioned line && !commented line

end Directive

structure Candidate where
  path : Path
  /-- Lines count from one. -/
  line : Nat
  content : String
deriving DecidableEq, Repr

def Candidate.describe (c : Candidate) : String :=
  c.path.text ++ ":" ++ toString c.line ++ ": " ++ Text.trim c.content

structure FileCandidates where
  path : Path
  candidates : List Candidate
deriving DecidableEq, Repr

namespace FileCandidates

def lines (f : FileCandidates) : List Nat :=
  f.candidates.map Candidate.line

def candidate? (path : Path) (raw : List String) (n : Nat) : Option Candidate :=
  match Text.nth? raw n with
  | none => none
  | some line =>
    if Directive.live (Text.stripTerminator line) then some ⟨path, n, Text.stripTerminator line⟩
    else none

/-- The candidates among the reported lines, in ascending order and each once. -/
def select (path : Path) (reported : List Nat) (content : String) : FileCandidates :=
  ⟨path, (numberSet reported).filterMap (candidate? path (Text.rawLines content))⟩

end FileCandidates

end IncludeSweep
