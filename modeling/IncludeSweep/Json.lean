import IncludeSweep.Text.Basic

set_option autoImplicit false

/-! # JSON values

The values of the JSON format, their text with and without layout, and the reading of records and
variants from values. -/

namespace IncludeSweep

inductive Json where
  | null
  | bool (b : Bool)
  | number (mantissa : Int) (scale : Nat)
  | string (s : String)
  | list (values : List Json)
  | object (fields : List (String × Json))
deriving Inhabited

namespace Json

def hexDigits (n : Nat) : List Char :=
  [Nat.digitChar (n / 16 % 16), Nat.digitChar (n % 16)]

/-- Control characters, the quotation mark and the backslash are escaped; all else stands for
itself. -/
def escapeChar (c : Char) : List Char :=
  if c = '"' then ['\\', '"']
  else if c = '\\' then ['\\', '\\']
  else if c = '\n' then ['\\', 'n']
  else if c = '\r' then ['\\', 'r']
  else if c = '\t' then ['\\', 't']
  else if c.toNat = 0x08 then ['\\', 'b']
  else if c.toNat = 0x0C then ['\\', 'f']
  else if c.toNat < 0x20 then ['\\', 'u', '0', '0'] ++ hexDigits c.toNat
  else [c]

def quote (s : String) : String :=
  String.ofList ('"' :: s.toList.flatMap escapeChar ++ ['"'])

def numberText (mantissa : Int) (scale : Nat) : String :=
  toString (mantissa / (Nat.pow 10 scale : Nat))

def newLine (indent : Nat) : String :=
  "\n" ++ String.ofList (List.replicate (2 * indent) ' ')

mutual

def prettyAt (indent : Nat) : Json → String
  | null => "null"
  | bool b => if b then "true" else "false"
  | number mantissa scale => numberText mantissa scale
  | string s => quote s
  | list [] => "[]"
  | list (v :: vs) =>
    "[" ++ newLine (indent + 1) ++ prettyAt (indent + 1) v ++ prettyRest (indent + 1) vs
      ++ newLine indent ++ "]"
  | object [] => "\x7b\x7d"
  | object (f :: fs) =>
    "\x7b" ++ newLine (indent + 1) ++ prettyField (indent + 1) f ++ prettyFields (indent + 1) fs
      ++ newLine indent ++ "\x7d"

def prettyRest (indent : Nat) : List Json → String
  | [] => ""
  | v :: vs => "," ++ newLine indent ++ prettyAt indent v ++ prettyRest indent vs

def prettyField (indent : Nat) : String × Json → String
  | (name, v) => quote name ++ ": " ++ prettyAt indent v

def prettyFields (indent : Nat) : List (String × Json) → String
  | [] => ""
  | f :: fs => "," ++ newLine indent ++ prettyField indent f ++ prettyFields indent fs

end

def pretty (v : Json) : String :=
  prettyAt 0 v

def compactStrings (strings : List String) : String :=
  "[" ++ ",".intercalate (strings.map quote) ++ "]"

def ofNat (n : Nat) : Json :=
  number n 0

def string? : Json → Option String
  | string s => some s
  | _ => none

def nat? : Json → Option Nat
  | number mantissa 0 =>
    if 0 ≤ mantissa ∧ mantissa.toNat < Text.numberBound then some mantissa.toNat else none
  | _ => none

def list? : Json → Option (List Json)
  | list values => some values
  | _ => none

/-- The fields of a record, in the order of `names`. A record is written as an object, where fields
may be missing and others are passed over, or as the list of all its fields. -/
def record? (names : List String) : Json → Option (List (Option Json))
  | object fields => some (names.map fun name => fields.lookup name)
  | list values => if values.length = names.length then some (values.map some) else none
  | _ => none

/-- The name of a variant without data: the name itself, or an object with nothing but a null field
of that name. -/
def variant? : Json → Option String
  | string name => some name
  | object [(name, null)] => some name
  | _ => none

def optional? {α : Type} (read : Json → Option α) : Option Json → Option (Option α)
  | none => some none
  | some null => some none
  | some v => (read v).map some

end Json

end IncludeSweep
