import IncludeSweep.Text.Basic
import IncludeSweep.Text.Classes

set_option autoImplicit false

/-! # Time stamps

A time stamp is a date, a time of day and the distance of its clock from universal time, written as
in `2024-01-31T12:00:00.5+01:00`. White space may stand before every number, every mark between two
numbers and the zone; the zone is an offset, the letter Z or the word UTC. Fractions of a second are
read and dropped. -/

namespace IncludeSweep

structure Timestamp where
  year : Int
  month : Nat
  day : Nat
  hour : Nat
  minute : Nat
  /-- Sixty in a leap second. -/
  second : Nat
  /-- The seconds by which the clock is ahead of universal time. -/
  offset : Int
deriving DecidableEq, Repr

namespace Timestamp

def isLeap (year : Int) : Bool :=
  year % 4 == 0 && (year % 100 != 0 || year % 400 == 0)

def daysIn (year : Int) (month : Nat) : Nat :=
  if month = 2 then if isLeap year then 29 else 28
  else if month = 4 ∨ month = 6 ∨ month = 9 ∨ month = 11 then 30
  else 31

def firstYear : Int := -262143

def lastYear : Int := 262142

def secondsOfDay : Nat := 86400

def hasDate (t : Timestamp) : Bool :=
  decide (firstYear ≤ t.year ∧ t.year ≤ lastYear ∧ 1 ≤ t.month ∧ t.month ≤ 12 ∧ 1 ≤ t.day ∧
    t.day ≤ daysIn t.year t.month)

def hasTime (t : Timestamp) : Bool :=
  decide (t.hour ≤ 23 ∧ t.minute ≤ 59 ∧ t.second ≤ 60)

def hasOffset (t : Timestamp) : Bool :=
  decide (t.offset.natAbs < secondsOfDay)

/-- The second of the day in universal time: below zero on the day before, a day's seconds or more
on the day after. -/
def universalSecond (t : Timestamp) : Int :=
  3600 * t.hour + 60 * t.minute + min t.second 59 - t.offset

def staysInYears (t : Timestamp) : Bool :=
  !(t.year == firstYear && t.month == 1 && t.day == 1 && decide (t.universalSecond < 0)) &&
    !(t.year == lastYear && t.month == 12 && t.day == 31 &&
      decide ((secondsOfDay : Int) ≤ t.universalSecond))

def isValid (t : Timestamp) : Bool :=
  t.hasDate && t.hasTime && t.hasOffset && t.staysInYears

def readDigits (width : Nat) (cs : List Char) : Option (Nat × List Char) :=
  let digits := (cs.take width).takeWhile Text.isAsciiDigit
  if digits = [] then none else some (Text.digitsValue 0 digits, cs.drop digits.length)

def readNumber (width : Nat) (cs : List Char) : Option (Nat × List Char) :=
  readDigits width (Text.trimStartChars cs)

/-- A year has at most four digits, or a sign and any number of digits. -/
def readYear (cs : List Char) : Option (Int × List Char) :=
  match Text.trimStartChars cs with
  | '-' :: cs => (readDigits cs.length cs).map fun r => (-(r.1 : Int), r.2)
  | '+' :: cs => (readDigits cs.length cs).map fun r => ((r.1 : Int), r.2)
  | cs => (readDigits 4 cs).map fun r => ((r.1 : Int), r.2)

def readMark (mark : Char) (cs : List Char) : Option (List Char) :=
  match Text.trimStartChars cs with
  | c :: cs => if c = mark then some cs else none
  | [] => none

def readSeparator : List Char → Option (List Char)
  | c :: cs => if c = 'T' ∨ c = 't' ∨ c = ' ' then some cs else none
  | [] => none

def skipFraction : List Char → Option (List Char)
  | '.' :: cs =>
    if cs.takeWhile Text.isAsciiDigit = [] then none else some (cs.dropWhile Text.isAsciiDigit)
  | cs => some cs

/-- Reads hours and minutes of two digits each, as seconds. Colons and white space may stand between
them. -/
def readOffset (cs : List Char) : Option (Nat × List Char) :=
  match cs with
  | h :: h' :: cs =>
    match cs.dropWhile fun c => c == ':' || Text.isWhite c with
    | m :: m' :: cs =>
      if [h, h', m, m'].all Text.isAsciiDigit && decide (m ≤ '5') then
        some (3600 * Text.digitsValue 0 [h, h'] + 60 * Text.digitsValue 0 [m, m'], cs)
      else none
    | _ => none
  | _ => none

/-- The true minus sign stands for the hyphen as well. -/
def readZone (cs : List Char) : Option (Int × List Char) :=
  let cs := Text.trimStartChars cs
  if (cs.take 3).map Char.toLower = ['u', 't', 'c'] then some (0, cs.drop 3)
  else
    match cs with
    | c :: cs =>
      if c = 'Z' ∨ c = 'z' then some (0, cs)
      else if c = '+' then (readOffset cs).map fun r => ((r.1 : Int), r.2)
      else if c = '-' ∨ c = '−' then (readOffset cs).map fun r => (-(r.1 : Int), r.2)
      else none
    | [] => none

def readFrom (cs : List Char) : Option (Timestamp × List Char) := do
  let (year, cs) ← readYear cs
  let cs ← readMark '-' cs
  let (month, cs) ← readNumber 2 cs
  let cs ← readMark '-' cs
  let (day, cs) ← readNumber 2 cs
  let cs ← readSeparator cs
  let (hour, cs) ← readNumber 2 cs
  let cs ← readMark ':' cs
  let (minute, cs) ← readNumber 2 cs
  let cs ← readMark ':' cs
  let (second, cs) ← readNumber 2 cs
  let cs ← skipFraction cs
  let (offset, cs) ← readZone cs
  return (⟨year, month, day, hour, minute, second, offset⟩, cs)

def read? (text : String) : Option Timestamp :=
  match readFrom text.toList with
  | some (t, rest) => if t.isValid && (Text.trimStartChars rest).isEmpty then some t else none
  | none => none

end Timestamp

end IncludeSweep
