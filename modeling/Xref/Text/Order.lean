import Xref.Text.Basic

/-!
# The order of texts

Texts are ordered by their code points, the first that differs deciding, and an initial piece
before the longer text. A set of texts is shown as the list of its members in this order.
-/

namespace Xref.Text

/-- The first text is not after the second. -/
def notAfter (a b : Text) : Bool :=
  match a, b with
  | [], _ => true
  | _ :: _, [] => false
  | c :: a, d :: b => if c = d then notAfter a b else c < d

/-- Drops texts that are equal to the one after them. -/
def dropRepeats : List Text → List Text
  | [] => []
  | [a] => [a]
  | a :: b :: r => if a = b then dropRepeats (b :: r) else a :: dropRepeats (b :: r)

/-- The different texts of a list in order. -/
def distinct (ss : List Text) : List Text :=
  dropRepeats (ss.mergeSort notAfter)

theorem mem_dropRepeats {s : Text} (ss : List Text) : s ∈ dropRepeats ss ↔ s ∈ ss := by
  induction ss using dropRepeats.induct with
  | case1 => simp [dropRepeats]
  | case2 => simp [dropRepeats]
  | case3 b r ih => simp [dropRepeats, ih]
  | case4 a b r h ih => simp [dropRepeats, h, ih]

/-- Ordering a list and dropping repeats keeps its members. -/
theorem mem_distinct {s : Text} {ss : List Text} : s ∈ distinct ss ↔ s ∈ ss := by
  simp [distinct, mem_dropRepeats]

end Xref.Text
