import Xref.Failure
import Xref.Identifier.Comparison
import Xref.Text.Order
import Xref.Tree.Basic

/-!
# Facts of a language

What searching has to know about the syntax of a language: which tokens are the words of
constructor initializers, and which names are aliases. In C# the word of an initializer is `this`
or `base`; in Visual Basic it is the `New` after `Me`, `MyClass` or `MyBase`, and what stands
before it tells whose constructor is called.
-/

namespace Xref

namespace PlacedNode

/-- A node and every node below it, each before those below it. -/
def descendants (p : PlacedNode) : List PlacedNode :=
  p :: below (p.node :: p.ancestors) p.node.children
where
  /-- The nodes of a forest inside the given nodes. -/
  below (around : List Node) : Forest → List PlacedNode
    | .nil => []
    | .token _ rest => below around rest
    | .node head children rest =>
      { node := ⟨head, children⟩, ancestors := around }
        :: (below (⟨head, children⟩ :: around) children ++ below around rest)

/-- The tokens that are children of a node. -/
def childTokens (p : PlacedNode) : List PlacedToken :=
  p.node.childTokens.map fun t => ⟨t, p, p.owner.isSome⟩

end PlacedNode

namespace Language

/-- The token stands in an initializer, and the text has it. -/
def inInitializer (t : PlacedToken) : Bool :=
  !t.token.isMissing && t.parent.kind == .constructorInitializer

/-- What stands before the `New` of an initializer. -/
def qualifier? (t : PlacedToken) : Option TokenKind :=
  if t.token.kind == .newKeyword && inInitializer t then
    t.parent.node.firstToken?.map Token.kind
  else none

/-- The token is the word of an initializer that calls a constructor of the same type. -/
def callsThis : Language → PlacedToken → Bool
  | .csharp, t => t.token.kind == .thisKeyword && inInitializer t
  | .visualBasic, t => qualifier? t == some .meKeyword || qualifier? t == some .myClassKeyword

/-- The token is the word of an initializer that calls a constructor of the base type. -/
def callsBase : Language → PlacedToken → Bool
  | .csharp, t => t.token.kind == .baseKeyword && inInitializer t
  | .visualBasic, t => qualifier? t == some .myBaseKeyword

/-- The token is the word of an initializer. -/
def isInitializerWord (l : Language) (t : PlacedToken) : Bool :=
  l.callsThis t || l.callsBase t

/-- The keys of the aliases that imports below a node declare. -/
def aliasNames (l : Language) (n : Node) : List Text :=
  Text.distinct <|
    ((n.descendants.filter fun m => m.kind == .nameEquals).filterMap Node.firstToken?).filterMap
      fun t => if t.isIdentifier then some ((Comparison.ofLanguage l).key t.value) else none

/-- The words of the initializers of the constructors below a node. -/
def initializerWords (l : Language) (p : PlacedNode) : List PlacedToken :=
  (p.descendants.filter fun c => c.kind == .constructorDeclaration).flatMap fun c =>
    (c.descendants.filter fun i => i.kind == .constructorInitializer).flatMap fun i =>
      i.childTokens.filter l.isInitializerWord

end Language

end Xref
