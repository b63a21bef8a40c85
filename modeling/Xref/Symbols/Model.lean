import Xref.Symbols.Declaration

/-!
# Semantic models

A semantic model answers what the names of a tree stand for. A name refers to the innermost
visible declaration of that name; constructors are not found by name but called by initializers,
which choose among the constructors of a type by the number of arguments.

Names from outside the document are unknown, and there is no other overload resolution.
-/

namespace Xref

/-- The declarations of a tree, ready to be asked. -/
structure Model where
  tree : Tree
  /-- Whether nullability was analysed; nothing here depends on it. -/
  nullable : Bool
  declarations : List Declaration

namespace Model

/-- The model of a tree. -/
def build (t : Tree) (nullable : Bool) : Model :=
  ⟨t, nullable, Declaration.all t⟩

/-- Every symbol in order of declaration. -/
def symbols (m : Model) : List Symbol :=
  m.declarations.map (·.symbol)

/-- The form that equal names share. -/
def key (m : Model) (name : Text) : Text :=
  m.tree.language.normalize name

/-- The symbols with a name, in order of declaration. -/
def named (m : Model) (name : Text) : List Symbol :=
  let k := m.key name
  m.symbols.filter fun s => m.key s.name == k

/-- The symbol with the shortest scope, the first of them. -/
def innermost? : List Symbol → Option Symbol
  | [] => none
  | s :: ss =>
    match innermost? ss with
    | none => some s
    | some t => if s.scope.size ≤ t.scope.size then some s else some t

/-- The innermost visible declaration of a name used at a span, constructors apart. -/
def lookup? (m : Model) (name : Text) (a : Span) : Option Symbol :=
  innermost? <| (m.named name).filter fun s => !s.kind.isConstructor && s.scope.encloses a

/-- The first type of a name. -/
def typeNamed? (m : Model) (name : Text) : Option Symbol :=
  (m.named name).find? fun s => s.kind == .type

/-- The symbol that a node declares. -/
def declared? (m : Model) (p : PlacedNode) : Option Symbol :=
  (m.declarations.find? fun d => d.node.id == p.id).map (·.symbol)

/-- The type that the node with a number declares. -/
def typeAt? (m : Model) (id : Nat) : Option Symbol :=
  ((m.declarations.find? fun d => d.node.id == id).map (·.symbol)).filter fun s => s.kind == .type

/-! ## Base types -/

/-- The first name after a colon and before a brace. -/
def nameAfterColon? (afterColon : Bool) : List Element → Option Text
  | [] => none
  | .token t :: es =>
    if t.kind = .colon then nameAfterColon? true es
    else if t.kind = .openBrace then none
    else nameAfterColon? afterColon es
  | .node n :: es =>
    if afterColon && n.kind == .identifierName then n.firstToken?.map Token.value
    else nameAfterColon? afterColon es

/-- The line of a type that names its base. -/
def isInherits (n : Node) : Bool :=
  n.kind == .memberDeclaration &&
    n.firstToken?.any fun t => String.ofList t.value.asciiLower == "inherits"

/-- The first name that a type lists as its base. -/
def baseName? (l : Language) (type : Node) : Option Text :=
  match l with
  | .csharp => nameAfterColon? false type.elements
  | .visualBasic =>
    ((type.childNodes.find? isInherits).bind (Draft.childOfKind? · .identifierName)).bind
      fun c => c.firstToken?.map Token.value

/-! ## Constructor initializers -/

/-- What has been seen of the arguments of a list. -/
structure ArgumentCount where
  depth : Nat := 0
  commas : Nat := 0
  /-- Something stands after the last comma. -/
  pending : Bool := false

/-- The count after one more token. -/
def ArgumentCount.next (n : ArgumentCount) (t : Token) : ArgumentCount :=
  match t.kind with
  | .openParen | .openBrace | .openBracket =>
    { n with depth := n.depth + 1, pending := n.pending || n.depth > 0 }
  | .closeParen | .closeBrace | .closeBracket => { n with depth := n.depth - 1 }
  | .comma =>
    if n.depth = 1 then { n with commas := n.commas + 1, pending := false }
    else { n with pending := n.pending || !t.isMissing }
  | _ => { n with pending := n.pending || !t.isMissing }

/-- The number of entries that commas separate at the top of a list. -/
def argumentCount (list : Node) : Nat :=
  let n := list.tokens.foldl ArgumentCount.next {}
  if n.commas > 0 || n.pending then n.commas + 1 else 0

/-- The word of an initializer tells whose constructor it calls. -/
def isInitializerWord (k : TokenKind) : Bool :=
  k == .thisKeyword || k == .baseKeyword || k == .meKeyword || k == .myClassKeyword ||
    k == .myBaseKeyword

/-- The constructor called is one of the base type. -/
def callsBase (k : TokenKind) : Bool :=
  k == .baseKeyword || k == .myBaseKeyword

/-- The type whose constructor an initializer calls. -/
def targetType? (m : Model) (p : PlacedNode) : Option Symbol :=
  match p.node.childTokens.find? fun t => isInitializerWord t.kind,
      p.findAncestor? (· == .classDeclaration) with
  | some word, some type =>
    match m.typeAt? type.id with
    | none => none
    | some s =>
      if callsBase word.kind then (baseName? m.tree.language type).bind m.typeNamed? else some s
  | _, _ => none

/-- Symbols in order of declaration. -/
def sorted (ss : List Symbol) : List Symbol :=
  ss.mergeSort fun a b => (a.declaration.order b.declaration).isLE

/-- The constructors among declarations that are members of a type. -/
def constructorsOf (m : Model) (ds : List Declaration) (type : Symbol) : List Symbol :=
  (ds.filter fun d => d.symbol.kind.isConstructor &&
    ((d.node.ancestors.head?.bind fun n => m.typeAt? n.id).any fun s => s.id == type.id)).map
      (·.symbol)

/-- The constructors of a type that an initializer with so many arguments calls, among the given
declarations: the one with as many parameters, or all with as many if there are several, or else
all of the type. -/
def resolveAmong (m : Model) (ds : List Declaration) (type : Symbol) (arguments : Nat) :
    Resolution :=
  let all := m.constructorsOf ds type
  match sorted (all.filter fun s => s.kind == .constructor arguments) with
  | [] => ⟨none, sorted all⟩
  | [s] => .resolved s
  | ss => ⟨none, ss⟩

/-- The number of arguments of an initializer. -/
def initializerArguments (n : Node) : Nat :=
  ((Draft.childOfKind? n .argumentList).map argumentCount).getD 0

/-- What an initializer calls. -/
def resolveInitializer (m : Model) (p : PlacedNode) : Resolution :=
  match m.targetType? p with
  | none => .none
  | some type => m.resolveAmong m.declarations type (initializerArguments p.node)

/-! ## Questions -/

/-- What a symbol found by name stands for: an alias stands for the type its target names last. -/
def behind (m : Model) (s : Symbol) : Resolution :=
  match s.kind with
  | .aliasOf target =>
    match m.typeNamed? (target.afterLast '.') with
    | some t => .resolved t
    | none => .none
  | _ => .resolved s

/-- What a node stands for. -/
def resolve (m : Model) (p : PlacedNode) : Resolution :=
  match p.kind with
  | .identifierName =>
    match p.node.firstToken? with
    | none => .none
    | some t =>
      match m.lookup? t.value t.span with
      | some s => m.behind s
      | none => .none
  | .constructorInitializer => m.resolveInitializer p
  | _ => .none

/-- The alias that a node names. -/
def alias? (m : Model) (p : PlacedNode) : Option Symbol :=
  if p.kind = .identifierName then
    (p.node.firstToken?.bind fun t => m.lookup? t.value t.span).filter fun s => s.kind.isAlias
  else none

end Model

end Xref
