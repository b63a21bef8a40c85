import Xref.Tree.Token

/-!
# Forests

A forest is a sequence of tokens and nodes in document order; a node is a head over a forest of
its own. Everything there is to ask about the shape of a tree is a recursion over this one type.

The span of a node covers the tokens below it that take up any room; a node with no such token
has the empty span at the offset where it was opened.
-/

namespace Xref

/-- What a node is, its number, and the offset where it was opened. -/
structure NodeHead where
  id : Nat
  kind : NodeKind
  start : Nat
  deriving DecidableEq

/-- Tokens and nodes in document order. -/
inductive Forest
  | nil
  | token (t : Token) (rest : Forest)
  | node (head : NodeHead) (children rest : Forest)

/-- A head over its children. -/
structure Node where
  head : NodeHead
  children : Forest

/-- A child of a node. -/
inductive Element
  | token (t : Token)
  | node (n : Node)

/-- The spans, without and with trivia, of a part of a tree that takes up room. -/
structure Extent where
  span : Span
  full : Span

/-- The empty extent at an offset. -/
def Extent.point (offset : Nat) : Extent :=
  ⟨.point offset, .point offset⟩

/-- The smallest extent around both. -/
def Extent.cover (a b : Extent) : Extent :=
  ⟨a.span.cover b.span, a.full.cover b.full⟩

/-- The extent of a token that takes up room. -/
def Token.extent? (t : Token) : Option Extent :=
  if t.fullSpan.isEmpty then none else some ⟨t.span, t.fullSpan⟩

namespace Forest

/-- The tokens in document order, without those of directives. -/
def tokens : Forest → List Token
  | nil => []
  | token t rest => t :: rest.tokens
  | node _ children rest => children.tokens ++ rest.tokens

/-- The tokens and nodes at the top. -/
def elements : Forest → List Element
  | nil => []
  | token t rest => .token t :: rest.elements
  | node head children rest => .node ⟨head, children⟩ :: rest.elements

/-- Every node, each before those below it. -/
def nodes : Forest → List Node
  | nil => []
  | token _ rest => rest.nodes
  | node head children rest => ⟨head, children⟩ :: children.nodes ++ rest.nodes

/-- The extent of the tokens that take up room, if there are any. -/
def extent? : Forest → Option Extent
  | nil => none
  | token t rest => Option.merge Extent.cover t.extent? rest.extent?
  | node _ children rest => Option.merge Extent.cover children.extent? rest.extent?

/-- The first token. -/
def firstToken? : Forest → Option Token
  | nil => none
  | token t _ => some t
  | node _ children rest =>
    match children.firstToken? with
    | some t => some t
    | none => rest.firstToken?

/-- The last token of the last element. -/
def lastToken? : Forest → Option Token
  | nil => none
  | token t nil => some t
  | token _ rest => rest.lastToken?
  | node _ children nil => children.lastToken?
  | node _ _ rest => rest.lastToken?

end Forest

namespace Node

/-- The number of the node. -/
def id (n : Node) : Nat :=
  n.head.id

/-- What the node is. -/
def kind (n : Node) : NodeKind :=
  n.head.kind

/-- The children. -/
def elements (n : Node) : List Element :=
  n.children.elements

/-- The children that are nodes. -/
def childNodes (n : Node) : List Node :=
  n.elements.filterMap fun
    | .node m => some m
    | .token _ => none

/-- The children that are tokens. -/
def childTokens (n : Node) : List Token :=
  n.elements.filterMap fun
    | .token t => some t
    | .node _ => none

/-- The node and every node below it, each before those below it. -/
def descendants (n : Node) : List Node :=
  n :: n.children.nodes

/-- The tokens below the node in document order, without those of directives. -/
def tokens (n : Node) : List Token :=
  n.children.tokens

/-- The first token below the node. -/
def firstToken? (n : Node) : Option Token :=
  n.children.firstToken?

/-- The last token of the last child; none if that child has no last token. -/
def lastToken? (n : Node) : Option Token :=
  n.children.lastToken?

/-- The extent of what is below the node. -/
def extent (n : Node) : Extent :=
  n.children.extent?.getD (.point n.head.start)

/-- The span without trivia. -/
def span (n : Node) : Span :=
  n.extent.span

/-- The span with trivia. -/
def fullSpan (n : Node) : Span :=
  n.extent.full

end Node

/-- The forest of the given tokens. -/
def Forest.ofTokens : List Token → Forest
  | [] => .nil
  | t :: ts => .token t (ofTokens ts)

/-- The nodes of the directives in leading trivia, which begins at offset `n`; nodes are numbered
from `i` and words from `j`. -/
def Lead.directiveNodes (n i j : Nat) : List Lead → List Node
  | [] => []
  | .trivia t :: ps => directiveNodes (n + t.text.size) i j ps
  | .directive ws :: ps =>
    ⟨⟨i, .directive, n⟩, .ofTokens (Token.layOutWords n j i ws)⟩
      :: directiveNodes (n + (Lead.directive ws).source.size) (i + 1) (j + ws.length) ps

/-- The directives in the leading trivia of a token. -/
def Token.directives (t : Token) : List Node :=
  Lead.directiveNodes t.start t.firstNode (t.id - Lead.wordCount t.lexeme.leading)
    t.lexeme.leading

end Xref
