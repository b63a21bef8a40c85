/-!
# Sets of characters given by ranges

The classes of characters that the lexical rules rest on are properties of the Unicode standard.
Outside ASCII each is a list of inclusive ranges of code points in ascending order, and a
character belongs to the class if some range holds its code point.
-/

namespace Xref.Unicode

/-- Inclusive ranges of code points. -/
abbrev Ranges := List (Nat × Nat)

/-- Some range holds the code point `n`. -/
def Ranges.holds (rs : Ranges) (n : Nat) : Bool :=
  rs.any fun r => r.1 ≤ n && n ≤ r.2

theorem Ranges.holds_iff (rs : Ranges) (n : Nat) :
    rs.holds n = true ↔ ∃ r ∈ rs, r.1 ≤ n ∧ n ≤ r.2 := by
  simp [Ranges.holds]

end Xref.Unicode
