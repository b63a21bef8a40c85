import Xref.Language

/-!
# Comparing names

Names of a case-sensitive language compare character by character, names of the other by their
folded forms. Both are equality of keys, so a table of names can be searched by key
(`equal_iff_key_eq`).
-/

namespace Xref

/-- How names compare. -/
inductive Comparison
  | ordinal
  | ignoreCase
  deriving DecidableEq, Inhabited

namespace Comparison

/-- The comparison of a language. -/
def ofLanguage (l : Language) : Comparison :=
  if l.isCaseSensitive then ordinal else ignoreCase

/-- The comparison of the language with the given name. -/
def ofName? (s : String) : Option Comparison :=
  (Language.ofName? s).map ofLanguage

/-- The form that equal names share. -/
def key : Comparison → Text → Text
  | ordinal, s => s
  | ignoreCase, s => s.fold

/-- The names are equal. -/
def equal (m : Comparison) (a b : Text) : Bool :=
  m.key a == m.key b

theorem equal_iff_key_eq {m : Comparison} {a b : Text} :
    m.equal a b = true ↔ m.key a = m.key b := by
  simp [equal]

end Comparison

end Xref
