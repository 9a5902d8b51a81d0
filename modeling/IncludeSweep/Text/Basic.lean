set_option autoImplicit false

/-! # Text: bytes, lines and numbers

`decode` accepts well-formed UTF-8 only. `decodeLossy` accepts every sequence of bytes: each longest
part that begins a character and cannot be completed is read as one replacement character.

A line ends after each newline character, so that the lines of a text concatenate to the text. The
terminator of a line is its newline with, before it, at most one carriage return; a carriage return
that no newline follows belongs to the line.

Numbers are read in decimal, in ASCII digits, and have to fit in 64 bits. -/

namespace IncludeSweep.Text

def decode (bytes : ByteArray) : Option String :=
  String.fromUTF8? bytes

def encode (text : String) : ByteArray :=
  text.toUTF8

/-- A character of which some bytes have been read: its bits so far, how many bytes are still to
come, and the range of the next one. -/
structure Unfinished where
  bits : Nat
  missing : Nat
  low : Nat
  high : Nat

def replacement : Char := Char.ofNat 0xFFFD

def firstByte (b : Nat) : Char ⊕ Unfinished :=
  if b < 0x80 then .inl (Char.ofNat b)
  else if b < 0xC2 then .inl replacement
  else if b < 0xE0 then .inr ⟨b - 0xC0, 1, 0x80, 0xBF⟩
  else if b < 0xF0 then
    .inr ⟨b - 0xE0, 2, if b = 0xE0 then 0xA0 else 0x80, if b = 0xED then 0x9F else 0xBF⟩
  else if b < 0xF5 then
    .inr ⟨b - 0xF0, 3, if b = 0xF0 then 0x90 else 0x80, if b = 0xF4 then 0x8F else 0xBF⟩
  else .inl replacement

def decodeLossyFrom : Option Unfinished → List UInt8 → List Char
  | none, [] => []
  | some _, [] => [replacement]
  | none, b :: bs =>
    match firstByte b.toNat with
    | .inl c => c :: decodeLossyFrom none bs
    | .inr next => decodeLossyFrom (some next) bs
  | some u, b :: bs =>
    if u.low ≤ b.toNat ∧ b.toNat ≤ u.high then
      if u.missing = 1 then Char.ofNat (u.bits * 64 + (b.toNat - 0x80)) :: decodeLossyFrom none bs
      else decodeLossyFrom (some ⟨u.bits * 64 + (b.toNat - 0x80), u.missing - 1, 0x80, 0xBF⟩) bs
    else
      match firstByte b.toNat with
      | .inl c => replacement :: c :: decodeLossyFrom none bs
      | .inr next => replacement :: decodeLossyFrom (some next) bs

def decodeLossy (bytes : ByteArray) : String :=
  String.ofList (decodeLossyFrom none bytes.data.toList)

def splitAfterNewline : List Char → List (List Char)
  | [] => []
  | c :: cs =>
    if c = '\n' then [c] :: splitAfterNewline cs
    else
      match splitAfterNewline cs with
      | [] => [[c]]
      | line :: lines => (c :: line) :: lines

def rawLines (text : String) : List String :=
  (splitAfterNewline text.toList).map String.ofList

def dropTerminator (cs : List Char) : List Char :=
  match cs.reverse with
  | '\n' :: '\r' :: rest => rest.reverse
  | '\n' :: rest => rest.reverse
  | _ => cs

def stripTerminator (line : String) : String :=
  String.ofList (dropTerminator line.toList)

def lines (text : String) : List String :=
  (rawLines text).map stripTerminator

def nth? {α : Type} (lines : List α) : Nat → Option α
  | 0 => none
  | n + 1 => lines[n]?

theorem flatten_splitAfterNewline (cs : List Char) : (splitAfterNewline cs).flatten = cs := by
  induction cs with
  | nil => rfl
  | cons c cs ih =>
    unfold splitAfterNewline
    split
    · simp [ih]
    · split
      · rename_i h
        rw [h] at ih
        simpa using ih
      · rename_i line lines h
        rw [h] at ih
        simpa using ih

def dropStart? (start cs : List Char) : Option (List Char) :=
  if start.isPrefixOf cs then some (cs.drop start.length) else none

theorem dropStart?_append (start cs : List Char) : dropStart? start (start ++ cs) = some cs := by
  simp [dropStart?]

theorem eq_append_of_dropStart? {start cs rest : List Char} (h : dropStart? start cs = some rest) :
    cs = start ++ rest := by
  unfold dropStart? at h
  split at h
  · rename_i hs
    obtain ⟨t, rfl⟩ := List.isPrefixOf_iff_prefix.1 hs
    simpa using h
  · simp at h

def isAsciiDigit (c : Char) : Bool :=
  decide ('0' ≤ c) && decide (c ≤ '9')

def digitValue (c : Char) : Nat :=
  c.toNat - '0'.toNat

def digitsValue (n : Nat) (cs : List Char) : Nat :=
  cs.foldl (fun n c => 10 * n + digitValue c) n

def numberBound : Nat := Nat.pow 2 64

def readDigits (cs : List Char) : Option Nat :=
  if cs ≠ [] ∧ cs.all isAsciiDigit = true ∧ digitsValue 0 cs < numberBound then
    some (digitsValue 0 cs)
  else none

/-- A number may have one plus sign in front. -/
def readNumber (text : String) : Option Nat :=
  match text.toList with
  | '+' :: cs => readDigits cs
  | cs => readDigits cs

end IncludeSweep.Text
