import Xref.Failure
import Xref.Identifier.Comparison
import Xref.Tree.Basic

/-!
# Walking a tree for a name

The walk visits every token below a node, those of directives included, and keeps the tokens that
match. It works on a list of what is left to visit, so its depth does not depend on the tree's. A
token with directives among its leading trivia is put back behind their words, which keeps the
result in document order.
-/

namespace Xref

/-- The token is a name that equals the given one. -/
def Token.matches (m : Comparison) (name : Text) (t : Token) : Bool :=
  t.isIdentifier && m.equal t.value name

/-- The words of the directives in the leading trivia of a token. -/
def Token.directiveWords (t : Token) : List PlacedToken :=
  t.placedDirectives.flatMap PlacedNode.words

/-- What a walk has left to visit. -/
inductive Visit
  | node (p : PlacedNode)
  | token (p : PlacedToken)
  /-- A token whose directives have been visited. -/
  | bare (p : PlacedToken)

namespace Visit

/-- An element in its place. -/
def ofElement (p : PlacedNode) : Element → Visit
  | .node n => .node (p.child n)
  | .token t => .token ⟨t, p, p.owner.isSome⟩

/-- The children of a node. -/
def children (p : PlacedNode) : List Visit :=
  p.node.elements.map (ofElement p)

/-- The words of the directives of a token, and the token behind them. -/
def unpacked (p : PlacedToken) : List Visit :=
  p.token.directiveWords.map bare ++ [bare p]

/-- How many visits a forest takes. -/
def forestCost : Forest → Nat
  | .nil => 0
  | .token t rest => 2 + t.directiveWords.length + forestCost rest
  | .node _ children rest => 1 + forestCost children + forestCost rest

/-- How many visits something left to visit takes. -/
def cost : Visit → Nat
  | node p => 1 + forestCost p.node.children
  | token p => 2 + p.token.directiveWords.length
  | bare _ => 1

/-- How many visits are left. -/
def totalCost : List Visit → Nat
  | [] => 0
  | v :: vs => v.cost + totalCost vs

theorem totalCost_append (vs ws : List Visit) :
    totalCost (vs ++ ws) = totalCost vs + totalCost ws := by
  induction vs with
  | nil => simp [totalCost]
  | cons v vs ih => simp [totalCost, ih, Nat.add_assoc]

theorem totalCost_children (p : PlacedNode) :
    totalCost (children p) = forestCost p.node.children := by
  have h (f : Forest) : totalCost (f.elements.map (ofElement p)) = forestCost f := by
    induction f with
    | nil => rfl
    | token t rest ih => simpa [Forest.elements, totalCost, ofElement, cost, forestCost] using ih
    | node h c rest _ ih =>
      simpa [Forest.elements, totalCost, ofElement, cost, forestCost, PlacedNode.child] using ih
  exact h p.node.children

theorem totalCost_unpacked (p : PlacedToken) :
    totalCost (unpacked p) = 1 + p.token.directiveWords.length := by
  have h (ws : List PlacedToken) : totalCost (ws.map bare) = ws.length := by
    induction ws with
    | nil => rfl
    | cons w ws ih => simp [totalCost, cost, ih, Nat.add_comm]
  simp [unpacked, totalCost_append, totalCost, cost, h, Nat.add_comm]

end Visit

/-- Visits what is left in order and keeps the tokens that match. -/
def walk (m : Comparison) (name : Text) (cancelled : Bool) (todo : List Visit) :
    Except Failure (List PlacedToken) :=
  let keep (p : PlacedToken) (found : Except Failure (List PlacedToken)) :=
    if p.token.matches m name then found.map (p :: ·) else found
  match todo with
  | [] => .ok []
  | v :: rest =>
    if cancelled then .error .cancelled
    else
      match v with
      | .node p => walk m name cancelled (Visit.children p ++ rest)
      | .token p =>
        if p.token.hasDirective then walk m name cancelled (Visit.unpacked p ++ rest)
        else keep p (walk m name cancelled rest)
      | .bare p => keep p (walk m name cancelled rest)
termination_by Visit.totalCost todo
decreasing_by
  · simp only [Visit.totalCost_append, Visit.totalCost_children, Visit.totalCost, Visit.cost]
    omega
  · simp only [Visit.totalCost_append, Visit.totalCost_unpacked, Visit.totalCost, Visit.cost]
    omega
  · simp only [Visit.totalCost, Visit.cost]; omega
  · simp only [Visit.totalCost, Visit.cost]; omega

/-- The tokens below a node that match a name, by visiting every token. -/
def PlacedNode.treeWalk (p : PlacedNode) (m : Comparison) (name : Text) (cancelled : Bool) :
    Except Failure (List PlacedToken) :=
  if name = [] then .ok [] else walk m name cancelled [.node p]

end Xref
