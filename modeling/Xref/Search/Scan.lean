import Xref.Identifier.Occurrence
import Xref.Search.Walk

/-!
# Scanning a text for a name

The scan looks for the name in the text and asks the tree for the token at each hit. A hit counts
only if the token begins and ends with it and is a name; hits in comments, strings and longer
names do not. The scan goes on after the hit and after the token found there, so that a long token
is passed over at once. Names written with an escape escape it.
-/

namespace Xref.Tree

/-- The token at a hit is the hit and matches the name. -/
def isHit (m : Comparison) (name : Text) (o : Occurrence) (p : PlacedToken) : Bool :=
  p.token.span.start == o.start && p.token.span.size == o.size && p.token.matches m name

/-- Where the scan goes on after a hit. -/
def afterHit (o : Occurrence) (p : Option PlacedToken) : Nat :=
  match p with
  | none => o.start + o.size
  | some p => max (o.start + o.size) p.token.span.stop

theorem le_afterHit (o : Occurrence) (p : Option PlacedToken) : o.start + o.size ≤ afterHit o p := by
  unfold afterHit
  split
  · exact Nat.le_refl _
  · exact Nat.le_max_left _ _

/-- The tokens that match a name, by searching the text from an offset on. -/
def scanFrom (t : Tree) (m : Comparison) (name : Text) (cancelled : Bool) (start : Nat) :
    Except Failure (List PlacedToken) :=
  match _h : m.find? name t.source.chars start with
  | none => .ok []
  | some o =>
    if cancelled then .error .cancelled
    else
      let p := t.findToken? o.start
      let rest := t.scanFrom m name cancelled (afterHit o p)
      match p with
      | none => rest
      | some p => if isHit m name o p then rest.map (p :: ·) else rest
termination_by t.source.chars.size - start
decreasing_by
  have h1 := Comparison.find?_bounds _h
  have h2 := le_afterHit o (t.findToken? o.start)
  omega

/-- The tokens that match a name, by searching the text. -/
def textScan (t : Tree) (m : Comparison) (name : Text) (cancelled : Bool) :
    Except Failure (List PlacedToken) :=
  if name = [] then .ok [] else t.scanFrom m name cancelled 0

end Xref.Tree
