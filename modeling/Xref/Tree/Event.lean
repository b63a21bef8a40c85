import Xref.Tree.Forest

/-!
# Events

A parser describes a tree by a sequence of events: a node opens, a token follows, a token is
missing, a node closes. Two passes make a forest of them.

The first goes from left to right and settles where everything stands and how it is numbered,
which depends on what comes before only. The second goes from right to left and puts each token
and node in front of what follows it: a closing event begins a new forest, and the opening event
that belongs to it takes this forest as the children of its node.
-/

namespace Xref

/-- A step in the description of a tree. -/
inductive Event
  | opened (kind : NodeKind)
  | token (lexeme : Lexeme)
  | missing (kind : TokenKind)
  | closed

/-- An event with the place of what it describes. -/
inductive Mark
  | opened (head : NodeHead)
  | token (t : Token)
  | closed

/-- How many nodes and tokens there are so far, and the offset reached. -/
structure Tally where
  nodes : Nat
  tokens : Nat
  offset : Nat

namespace Tally

/-- The token of a lexeme at this point. -/
def token (n : Tally) (l : Lexeme) (isMissing : Bool) : Token :=
  { id := n.tokens + Lead.wordCount l.leading, firstNode := n.nodes, start := n.offset,
    lexeme := l, isMissing }

/-- The tally after the token of a lexeme. -/
def afterToken (n : Tally) (l : Lexeme) : Tally :=
  { nodes := n.nodes + Lead.directiveCount l.leading,
    tokens := n.tokens + Lead.wordCount l.leading + 1,
    offset := n.offset + l.source.size }

end Tally

/-- Events in their places. -/
def Mark.ofEvents (n : Tally) : List Event → List Mark
  | [] => []
  | .opened k :: es =>
    .opened ⟨n.nodes, k, n.offset⟩ :: ofEvents { n with nodes := n.nodes + 1 } es
  | .token l :: es => .token (n.token l false) :: ofEvents (n.afterToken l) es
  | .missing k :: es =>
    .token (n.token (.absent k) true) :: ofEvents (n.afterToken (.absent k)) es
  | .closed :: es => .closed :: ofEvents n es

/-- Puts what a mark describes in front of the forests of the nodes open after it, the innermost
first. -/
def Mark.attach (m : Mark) (rest : List Forest) : List Forest :=
  match m, rest with
  | .closed, fs => .nil :: fs
  | .token t, f :: fs => .token t f :: fs
  | .opened h, f :: g :: fs => .node h f g :: fs
  | .opened h, [f] => [.node h f .nil]
  | _, [] => []

/-- The forest that marks describe. -/
def Forest.ofMarks (ms : List Mark) : Forest :=
  (ms.foldr Mark.attach [.nil]).headD .nil

/-- The root over the events between its opening and its closing. -/
def Node.rootOfEvents (es : List Event) : Node :=
  ⟨⟨0, .compilationUnit, 0⟩, Forest.ofMarks (Mark.ofEvents ⟨1, 0, 0⟩ es)⟩

end Xref
