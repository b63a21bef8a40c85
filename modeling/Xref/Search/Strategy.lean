import Xref.Filter.Index
import Xref.Search.Scan

/-!
# Choosing how to search

The index of a tree tells how a name has to be looked for: not at all if it does not occur, in the
text if it is never escaped, in the tree otherwise. The filter of escaped names is asked first;
every name in it is in the other filter too, so its answer settles the matter.
-/

namespace Xref

/-- How a name is looked for. -/
inductive Strategy
  | skip
  | textScan
  | treeWalk
  deriving DecidableEq

namespace Strategy

/-- The strategy for a name. -/
def select (x : Index) (name : Text) : Strategy :=
  if name = [] then .skip
  else if x.mayHoldEscaped name then .treeWalk
  else if x.mayHold name then .textScan
  else .skip

/-- Looks for a name in a tree. -/
def run (s : Strategy) (t : Tree) (m : Comparison) (name : Text) (cancelled : Bool) :
    Except Failure (List PlacedToken) :=
  match s with
  | skip => .ok []
  | textScan => t.textScan m name cancelled
  | treeWalk => t.placedRoot.treeWalk m name cancelled

end Strategy

end Xref
