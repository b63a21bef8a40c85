import Xref.Symbols.Symbol
import Xref.Tree.Basic

/-!
# Declarations

Which nodes declare a symbol, under which name, of what kind, and where the name is visible:

* an alias in its namespace, or the document;
* a type in the document;
* a constructor in its type, or the document;
* a method, field or property in the type around it, or the document;
* a parameter in the member that has it;
* a local name in the innermost block, method, constructor or type, or the document.

Types are declared before everything else, so that the order of symbols is types first.
-/

namespace Xref

/-- A declaration whose symbol has no number yet. -/
structure Draft where
  node : PlacedNode
  name : Token
  kind : SymbolKind
  scope : Span

/-- A symbol and the node that declares it. -/
structure Declaration where
  symbol : Symbol
  node : PlacedNode

namespace Draft

/-- The first child of the kind. -/
def childOfKind? (n : Node) (k : NodeKind) : Option Node :=
  n.childNodes.find? fun m => m.kind == k

/-- The first child token of the kind. -/
def childToken? (n : Node) (k : TokenKind) : Option Token :=
  n.childTokens.find? fun t => t.kind == k

/-- A type is named by its first name. -/
def type? (document : Span) (p : PlacedNode) : Option Draft :=
  if p.kind = .classDeclaration then
    (p.node.childTokens.find? Token.isIdentifier).map fun t => ⟨p, t, .type, document⟩
  else none

/-- The target of an alias: the names of the directive, joined by points. -/
def aliasTarget (n : Node) : Text :=
  Text.joinWith '.' <|
    (n.childNodes.filter fun m => m.kind == .identifierName).filterMap fun m =>
      m.firstToken?.map Token.value

/-- An import declares an alias if it has one. -/
def alias? (document : Span) (p : PlacedNode) : Option Draft :=
  match childOfKind? p.node .nameEquals with
  | none => none
  | some e =>
    match e.firstToken? with
    | none => none
    | some t =>
      if t.isMissing then none
      else
        let scope := ((p.findAncestor? (· == .namespaceDeclaration)).map Node.fullSpan).getD document
        some ⟨p, t, .aliasOf (aliasTarget p.node), scope⟩

/-- The number of parameters of a constructor: of the names that its list declares. -/
def arity (n : Node) : Nat :=
  match childOfKind? n .parameterList with
  | none => 0
  | some l => l.childNodes.countP fun m => m.kind == .declarator

/-- The kind of token that names a constructor. -/
def constructorToken : Language → TokenKind
  | .csharp => .identifier
  | .visualBasic => .newKeyword

/-- The type whose member the node is. -/
def ownerType? (p : PlacedNode) : Option PlacedNode :=
  p.parent?.filter fun q => q.kind == .classDeclaration

/-- A constructor is visible in the type whose member it is. -/
def constructor? (l : Language) (document : Span) (p : PlacedNode) : Option Draft :=
  (childToken? p.node (constructorToken l)).map fun t =>
    ⟨p, t, .constructor (arity p.node), ((ownerType? p).map (·.node.fullSpan)).getD document⟩

/-- Encloses the names that are local to it. -/
def boundsLocals (k : NodeKind) : Bool :=
  k == .block || k == .methodDeclaration || k == .constructorDeclaration ||
    k == .classDeclaration || k == .compilationUnit

/-- What a declared name is, and where it is visible, depends on the node around it and on
whether a parenthesis follows. -/
def nameKind (document : Span) (p : PlacedNode) (parent : Node) (beforeParen : Bool) :
    SymbolKind × Span :=
  let inType := ((p.findAncestor? (· == .classDeclaration)).map Node.fullSpan).getD document
  match parent.kind with
  | .parameterList =>
    (.parameter, ((p.ancestors.tail.head?).map Node.fullSpan).getD document)
  | .methodDeclaration => (.method, inType)
  | .memberDeclaration => (if beforeParen then .method else .field, inType)
  | .classDeclaration => (.field, inType)
  | _ =>
    (if beforeParen then .method else .local,
      ((p.findAncestor? boundsLocals).map Node.fullSpan).getD document)

/-- A parenthesis is the next token outside directives. -/
def parenFollows (t : Tree) (name : Token) : Bool :=
  ((t.tokens.toList.drop (name.id + 1)).find? fun q => !q.inDirective).any fun q =>
    q.token.kind == .openParen

/-- A declared name. -/
def name? (t : Tree) (document : Span) (p : PlacedNode) : Option Draft :=
  match p.node.firstToken?, p.ancestors.head? with
  | some name, some parent =>
    let (kind, scope) := nameKind document p parent (parenFollows t name)
    some ⟨p, name, kind, scope⟩
  | _, _ => none

/-- What a node other than a type declares. -/
def other? (t : Tree) (document : Span) (p : PlacedNode) : Option Draft :=
  match p.kind with
  | .usingDirective => alias? document p
  | .constructorDeclaration => constructor? t.language document p
  | .declarator => name? t document p
  | _ => none

/-- The declarations of a tree in order. -/
def all (t : Tree) : List Draft :=
  let document := t.root.fullSpan
  let nodes := t.nodes.toList
  nodes.filterMap (type? document) ++ nodes.filterMap (other? t document)

/-- The declaration with its symbol numbered. -/
def number (i : Nat) (d : Draft) : Declaration :=
  { symbol := { id := i, name := d.name.value, kind := d.kind, declaration := d.name.span,
                scope := d.scope },
    node := d.node }

end Draft

/-- The declarations of a tree in order, numbered from zero. -/
def Declaration.all (t : Tree) : List Declaration :=
  (Draft.all t).mapIdx Draft.number

end Xref
