import Xref.Text.Basic
import Xref.Unicode.GraphemeExtend
import Xref.Unicode.Unprintable

/-!
# Quoted text

The form in which texts appear in diagnostics: between quotation marks, with a backslash before
marks and backslashes, the usual short forms for controls, and a hexadecimal code point for every
other character that has no form of its own or would merge with its neighbour.
-/

namespace Xref.Text

/-- The digits of a number in base sixteen. -/
def hexDigits (n : Nat) : Text :=
  Nat.toDigits 16 n

/-- Can be shown as it is. -/
def isPrintable (c : Char) : Bool :=
  if c.toNat < 128 then 0x20 ≤ c.toNat && c.toNat < 0x7F
  else !Unicode.unprintableRanges.holds c.toNat && !Unicode.graphemeExtendRanges.holds c.toNat

/-- The form of one character inside quotation marks. -/
def quoteChar (c : Char) : Text :=
  if c = '\x00' then ['\\', '0']
  else if c = '\t' then ['\\', 't']
  else if c = '\r' then ['\\', 'r']
  else if c = '\n' then ['\\', 'n']
  else if c = '\\' || c = '"' then ['\\', c]
  else if isPrintable c then [c]
  else ['\\', 'u', '{'] ++ hexDigits c.toNat ++ ['}']

/-- The text between quotation marks. -/
def quote (s : Text) : Text :=
  '"' :: s.flatMap quoteChar ++ ['"']

end Xref.Text
