import Xref.Unicode.Character

/-!
# Identifier characters

A name begins with a letter or an underscore and goes on with letters, numbers and underscores.
-/

namespace Xref.Identifier

/-- Can begin a name. -/
def isStart (c : Char) : Bool :=
  c == '_' || Unicode.isAlphabetic c

/-- Can stand in a name after its first character. -/
def isPart (c : Char) : Bool :=
  c == '_' || Unicode.isAlphanumeric c

theorem isPart_of_isStart {c : Char} (h : isStart c = true) : isPart c = true := by
  simp only [isStart, isPart, Bool.or_eq_true] at h ⊢
  exact h.imp_right Unicode.isAlphanumeric_of_isAlphabetic

/-- A well-formed name: not empty, begun and continued as names are. -/
def IsName : List Char → Prop
  | [] => False
  | c :: r => isStart c = true ∧ ∀ d ∈ r, isPart d = true

theorem IsName.ne_nil {s : List Char} (h : IsName s) : s ≠ [] := by
  rintro rfl
  exact h

end Xref.Identifier
