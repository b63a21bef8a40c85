import Xref.Unicode.Alphabetic
import Xref.Unicode.Numeric
import Xref.Unicode.Lowercase

/-!
# Classes of characters and lower case

Identifiers, blanks and the folding of names are defined by Unicode properties of single
characters. ASCII is decided by comparison; everything beyond it is looked up in the tables.

Lower case is taken one character at a time and without regard to its neighbours, so that the
folded form of a piece of text is a piece of the folded text. It may have more than one
character, but never none (`lowercase_ne_nil`).
-/

namespace Xref.Unicode

/-- Has the property Alphabetic. -/
def isAlphabetic (c : Char) : Bool :=
  if c.toNat < 128 then c.isAlpha else alphabeticRanges.holds c.toNat

/-- Is a number of any kind (general category Nd, Nl or No). -/
def isNumeric (c : Char) : Bool :=
  if c.toNat < 128 then c.isDigit else numericRanges.holds c.toNat

/-- Is alphabetic or numeric. -/
def isAlphanumeric (c : Char) : Bool :=
  isAlphabetic c || isNumeric c

/-- The code points with the property White_Space. -/
def whiteSpaceRanges : Ranges := [
  (0x9, 0xD), (0x20, 0x20), (0x85, 0x85), (0xA0, 0xA0), (0x1680, 0x1680), (0x2000, 0x200A),
  (0x2028, 0x2029), (0x202F, 0x202F), (0x205F, 0x205F), (0x3000, 0x3000)]

/-- Has the property White_Space. -/
def isWhiteSpace (c : Char) : Bool :=
  whiteSpaceRanges.holds c.toNat

/-- The lower-case form of a character. -/
def lowercase (c : Char) : List Char :=
  if c.toNat < 128 then [c.toLower]
  else if c.toNat = 0x130 then ['i', '\u0307']
  else
    match lowercaseRuns.findSome? (·.map? c.toNat) with
    | some n => [Char.ofNat n]
    | none => [c]

theorem lowercase_ne_nil (c : Char) : lowercase c ≠ [] := by
  unfold lowercase
  split
  · simp
  · split
    · simp
    · split <;> simp

theorem isAlphanumeric_of_isAlphabetic {c : Char} (h : isAlphabetic c = true) :
    isAlphanumeric c = true := by
  simp [isAlphanumeric, h]

end Xref.Unicode
