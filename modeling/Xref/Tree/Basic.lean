import Xref.Language
import Xref.Partition
import Xref.Text.Source
import Xref.Tree.Event

/-!
# Trees

A tree is the root node over the events that describe a text, together with two tables: every
token by number and every node by number, each with the nodes around it. Tokens of directives are
in the table of tokens, just before the token they belong to, so the table is in document order
and a token is found from an offset by halving (`Tree.findToken?`).

Numbers have no bound here. Where they are kept in 32 bits, neither table may have more than 2 ^ 32
entries.
-/

namespace Xref

/-- The piece of trivia that a directive is: what it says, the token it belongs to, and its place
among the leading trivia of that token. -/
structure Owner where
  text : Text
  token : Nat
  place : Nat

/-- A node with the nodes around it, its parent first. A directive has an owner instead. -/
structure PlacedNode where
  node : Node
  ancestors : List Node
  owner : Option Owner := none

/-- A token with the node that it is a child of. -/
structure PlacedToken where
  token : Token
  parent : PlacedNode
  inDirective : Bool

namespace PlacedNode

/-- The number of the node. -/
def id (p : PlacedNode) : Nat :=
  p.node.id

/-- What the node is. -/
def kind (p : PlacedNode) : NodeKind :=
  p.node.kind

/-- The node around this one. -/
def parent? (p : PlacedNode) : Option PlacedNode :=
  match p.ancestors with
  | [] => none
  | a :: as => some { node := a, ancestors := as }

/-- A child of this node in its place. -/
def child (p : PlacedNode) (n : Node) : PlacedNode :=
  { node := n, ancestors := p.node :: p.ancestors }

/-- The innermost node around this one of which `f` holds. -/
def findAncestor? (p : PlacedNode) (f : NodeKind → Bool) : Option Node :=
  p.ancestors.find? fun a => f a.kind

end PlacedNode

/-- The directives of a token, each with its owner. -/
def Token.placedDirectives (t : Token) : List PlacedNode :=
  (t.directives.zip (t.lexeme.leading.zipIdx.filter fun l => l.1.isDirective)).map fun d =>
    { node := d.1, ancestors := [], owner := some ⟨d.2.1.source, t.id, d.2.2⟩ }

/-- The tokens of a directive. -/
def PlacedNode.words (d : PlacedNode) : List PlacedToken :=
  d.node.tokens.map fun w => ⟨w, d, true⟩

namespace Forest

/-- Every node by number, those of directives included, below the given nodes. -/
def placedNodes (around : List Node) : Forest → List PlacedNode
  | nil => []
  | token t rest => t.placedDirectives ++ rest.placedNodes around
  | node head children rest =>
    let n : Node := ⟨head, children⟩
    { node := n, ancestors := around }
      :: (children.placedNodes (n :: around) ++ rest.placedNodes around)

/-- Every token by number, those of directives included, below the given node. -/
def placedTokens (parent : PlacedNode) : Forest → List PlacedToken
  | nil => []
  | token t rest =>
    t.placedDirectives.flatMap PlacedNode.words ++ ⟨t, parent, false⟩ :: rest.placedTokens parent
  | node head children rest =>
    children.placedTokens (parent.child ⟨head, children⟩) ++ rest.placedTokens parent

/-- The extent of a forest together with those of all nodes in it by number, found in one pass. -/
def extents : Forest → Option Extent × List Extent
  | nil => (none, [])
  | token t rest =>
    let (e, es) := rest.extents
    (Option.merge Extent.cover t.extent? e, t.placedDirectives.map (·.node.extent) ++ es)
  | node head children rest =>
    let (e, es) := children.extents
    let (f, fs) := rest.extents
    (Option.merge Extent.cover e f, e.getD (.point head.start) :: (es ++ fs))

/-- One pass finds what asking every node finds. -/
theorem extents_eq (around : List Node) (f : Forest) :
    f.extents = (f.extent?, (f.placedNodes around).map (·.node.extent)) := by
  induction f generalizing around with
  | nil => rfl
  | token t rest ih => simp [extents, extent?, placedNodes, ih around]
  | node head children rest ihc ihr =>
    simp [extents, extent?, placedNodes, ihc (⟨head, children⟩ :: around), ihr around, Node.extent]

end Forest

namespace Node

/-- A root and every node below it, those of directives included. -/
def placedNodes (n : Node) : List PlacedNode :=
  { node := n, ancestors := [] } :: n.children.placedNodes [n]

/-- Every token below a root, those of directives included. -/
def placedTokens (n : Node) : List PlacedToken :=
  n.children.placedTokens { node := n, ancestors := [] }

end Node

/-! ## Nearest members of an array -/

/-- The first member at index `i` or later of which `p` holds. -/
def findFrom? {α : Type} (p : α → Bool) (xs : Array α) (i : Nat) : Option α :=
  if h : i < xs.size then
    if p xs[i] then some xs[i] else findFrom? p xs (i + 1)
  else none
termination_by xs.size - i

theorem findFrom?_eq {α : Type} (p : α → Bool) (xs : Array α) (i : Nat) :
    findFrom? p xs i = (xs.toList.drop i).find? p := by
  induction i using findFrom?.induct p xs with
  | case1 i h hp =>
    rw [findFrom?, dif_pos h, if_pos hp, List.drop_eq_getElem_cons (by simpa using h)]
    simp [hp]
  | case2 i h hp ih =>
    rw [findFrom?, dif_pos h, if_neg hp, ih, List.drop_eq_getElem_cons (i := i) (by simpa using h)]
    simp [hp]
  | case3 i h =>
    rw [findFrom?, dif_neg h, List.drop_eq_nil_of_le (by simpa using h)]
    rfl

/-- The last member before index `i` of which `p` holds. -/
def findBefore? {α : Type} (p : α → Bool) (xs : Array α) : Nat → Option α
  | 0 => none
  | i + 1 =>
    match xs[i]?.filter p with
    | some x => some x
    | none => findBefore? p xs i

theorem findBefore?_eq {α : Type} (p : α → Bool) (xs : Array α) (i : Nat) :
    findBefore? p xs i = (xs.toList.take i).reverse.find? p := by
  induction i with
  | zero => rfl
  | succ i ih =>
    rw [findBefore?, ih, List.take_add_one]
    cases h : xs[i]? with
    | none => simp [h]
    | some x => by_cases hp : p x = true <;> simp [h, hp, Option.filter]

/-! ## Trees -/

/-- A source text as a tree, with its nodes and tokens by number. -/
structure Tree where
  language : Language
  source : SourceText
  root : Node
  nodes : Array PlacedNode
  tokens : Array PlacedToken
  nodes_eq : nodes = root.placedNodes.toArray
  tokens_eq : tokens = root.placedTokens.toArray

namespace Tree

/-- The tree of a source text whose root stands over the given events. -/
def ofEvents (l : Language) (s : SourceText) (es : List Event) : Tree :=
  ⟨l, s, .rootOfEvents es, _, _, rfl, rfl⟩

/-- The version of the text. -/
def version (t : Tree) : Nat :=
  t.source.version

/-- The root in its place. -/
def placedRoot (t : Tree) : PlacedNode :=
  { node := t.root, ancestors := [] }

/-- The extents of all nodes by number. -/
def extents (t : Tree) : List Extent :=
  let (e, es) := t.root.children.extents
  e.getD (.point t.root.head.start) :: es

theorem extents_eq (t : Tree) : t.extents = t.nodes.toList.map (·.node.extent) := by
  simp [extents, Forest.extents_eq [t.root], t.nodes_eq, Node.placedNodes, Node.extent]

/-- The last token that starts at or before an offset, those of directives included. -/
def findToken? (t : Tree) (offset : Nat) : Option PlacedToken :=
  match partitionPoint (fun p => decide (p.token.span.start ≤ offset)) t.tokens with
  | 0 => none
  | i + 1 => t.tokens[i]?

/-- The next token: outside directives if `p` is, else inside directives. -/
def nextToken? (t : Tree) (p : PlacedToken) : Option PlacedToken :=
  findFrom? (fun q => q.inDirective == p.inDirective) t.tokens (p.token.id + 1)

/-- The previous token: outside directives if `p` is, else inside directives. -/
def previousToken? (t : Tree) (p : PlacedToken) : Option PlacedToken :=
  findBefore? (fun q => q.inDirective == p.inDirective) t.tokens p.token.id

end Tree

end Xref
