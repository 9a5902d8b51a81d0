import IncludeSweep.Path
import IncludeSweep.Sorting
import IncludeSweep.Text.Basic
import IncludeSweep.Text.Classes
import IncludeSweep.Text.Word

set_option autoImplicit false

/-! # Diagnostics

A diagnostic is a line of the shape `path:line:column: warning: message [check]`. The path is the
shortest one with which the line has that shape. Two checks are of interest, each with its own
messages; every other line is passed over. -/

namespace IncludeSweep

inductive DiagnosticKind where
  | unusedInclude
  | duplicateInclude
deriving DecidableEq, Repr

structure Diagnostic where
  path : Path
  line : Nat
  kind : DiagnosticKind
deriving DecidableEq, Repr

namespace Diagnostic

structure Warning where
  path : List Char
  line : List Char
  message : List Char
  check : List Char
deriving DecidableEq, Repr

def isCheckChar (c : Char) : Bool :=
  Text.isWord c || c == '.' || c == ',' || c == '-'

def readCheck (cs : List Char) : Option (List Char × List Char) :=
  match cs.reverse.dropWhile Text.isWhite with
  | ']' :: rest =>
    if rest.takeWhile isCheckChar = [] then none
    else
      match rest.dropWhile isCheckChar with
      | '[' :: ' ' :: message => some (message.reverse, (rest.takeWhile isCheckChar).reverse)
      | _ => none
  | _ => none

def readColonDigits : List Char → Option (List Char × List Char)
  | ':' :: cs =>
    if cs.takeWhile Text.isDigit = [] then none
    else some (cs.takeWhile Text.isDigit, cs.dropWhile Text.isDigit)
  | _ => none

def readTail (cs : List Char) : Option (List Char × List Char × List Char) :=
  match readColonDigits cs with
  | none => none
  | some (line, cs) =>
    match readColonDigits cs with
    | none => none
    | some (_, cs) =>
      match Text.dropStart? ": warning: ".toList cs with
      | none => none
      | some cs =>
        match readCheck cs with
        | none => none
        | some (message, check) => some (line, message, check)

/-- Reads a warning whose path goes on at `cs`; `before` is the path so far, nearest character
first. -/
def readWarningFrom (before : List Char) : List Char → Option Warning
  | [] => none
  | c :: cs =>
    match readTail (c :: cs) with
    | some (line, message, check) => some ⟨before.reverse, line, message, check⟩
    | none => readWarningFrom (c :: before) cs

def readWarning : List Char → Option Warning
  | [] => none
  | c :: cs => readWarningFrom [c] cs

def unusedStart : List Char := "included header ".toList

def unusedEnd : List Char := " is not used directly".toList

/-- The message of an unused header: its two fixed parts do not overlap. -/
def isUnusedMessage (message : List Char) : Bool :=
  match Text.dropStart? unusedStart message with
  | none => false
  | some rest => unusedEnd.isSuffixOf rest

def isDuplicateMessage (message : List Char) : Bool :=
  "duplicate include".toList.isPrefixOf message

def unusedCheck : List Char := "misc-include-cleaner".toList

def duplicateCheck : List Char := "readability-duplicate-include".toList

def Warning.kind? (w : Warning) : Option DiagnosticKind :=
  if w.check = unusedCheck then
    if isUnusedMessage w.message then some .unusedInclude else none
  else if w.check = duplicateCheck then
    if isDuplicateMessage w.message then some .duplicateInclude else none
  else none

/-- The diagnostic of one line. The line number may be written in any decimal digits as far as the
shape goes, but is a number only in ASCII digits. -/
def ofLine (line : String) : Option Diagnostic :=
  match readWarning line.toList with
  | none => none
  | some w =>
    match Text.readDigits w.line, w.kind? with
    | some n, some kind => some ⟨⟨String.ofList w.path⟩, n, kind⟩
    | _, _ => none

def parse (output : String) : List Diagnostic :=
  (Text.lines output).filterMap ofLine

/-- A diagnostic refers to a file by the file's name alone. A path without a file name, on either
side, matches everything. -/
def refersTo (file : Path) (d : Diagnostic) : Bool :=
  match d.path.fileName, file.fileName with
  | some a, some b => a == b
  | _, _ => true

def reportedLines (file : Path) (output : String) : List Nat :=
  numberSet (((parse output).filter (refersTo file)).map Diagnostic.line)

end Diagnostic

end IncludeSweep
