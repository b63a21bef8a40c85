import Xref.Text.Basic

/-!
# JSON

The values that results are made of, and their written form: an item or a field a line, indented
by two spaces for each list or record around it. A list or record with nothing in it takes no
lines of its own.
-/

namespace Xref.CommandLine

/-- A result. -/
inductive Json
  | number (n : Nat)
  | text (s : Text)
  | list (items : List Json)
  | record (fields : List (String × Json))

namespace Json

/-- A digit in base sixteen. -/
def hexDigit (n : Nat) : Char :=
  (Nat.toDigits 16 n).headD '0'

/-- The form of a character inside quotation marks. -/
def escape (c : Char) : Text :=
  if c = '"' || c = '\\' then ['\\', c]
  else if c = '\x08' then ['\\', 'b']
  else if c = '\x0c' then ['\\', 'f']
  else if c = '\n' then ['\\', 'n']
  else if c = '\r' then ['\\', 'r']
  else if c = '\t' then ['\\', 't']
  else if c.toNat < 0x20 then
    ['\\', 'u', '0', '0', hexDigit (c.toNat / 16), hexDigit (c.toNat % 16)]
  else [c]

/-- A text between quotation marks. -/
def quote (s : Text) : Text :=
  '"' :: s.flatMap escape ++ ['"']

/-- A new line, indented for a depth. -/
def line (depth : Nat) : Text :=
  '\n' :: List.replicate (2 * depth) ' '

/-- Lines of a list or record around which there are `depth` others. -/
def block (first last : Char) (depth : Nat) (lines : List Text) : Text :=
  if lines.isEmpty then [first, last]
  else first :: Text.joinWith ',' (lines.map fun l => line (depth + 1) ++ l) ++ line depth ++ [last]

mutual

/-- The written form of a value around which there are `depth` lists and records. -/
def writeAt (depth : Nat) : Json → Text
  | number n => (toString n).toList
  | text s => quote s
  | list items => block '[' ']' depth (writeItems (depth + 1) items)
  | record fields => block '\x7b' '\x7d' depth (writeFields (depth + 1) fields)

/-- The written forms of the items of a list. -/
def writeItems (depth : Nat) : List Json → List Text
  | [] => []
  | v :: vs => writeAt depth v :: writeItems depth vs

/-- The written forms of the fields of a record, each with its name. -/
def writeFields (depth : Nat) : List (String × Json) → List Text
  | [] => []
  | (name, v) :: fs => (quote name.toList ++ ':' :: ' ' :: writeAt depth v) :: writeFields depth fs

end

/-- The written form of a result. -/
def write (v : Json) : Text :=
  writeAt 0 v

end Json

end Xref.CommandLine
