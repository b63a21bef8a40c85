import Xref.Text.Basic
import Xref.Text.Span

/-!
# Symbols

A symbol is what a name declares. It knows the span of the name that declares it and the span in
which the name is visible. Symbols are numbered in order of declaration, and a tree has no more of
them than nodes, so that their numbers need no bound beyond that of the nodes.
-/

namespace Xref

/-- What a symbol is. -/
inductive SymbolKind
  /-- Another name for a target, which is kept as written, with points between its parts. -/
  | aliasOf (target : Text)
  | type
  | constructor (arity : Nat)
  | method
  | field
  | local
  | parameter
  deriving DecidableEq

namespace SymbolKind

/-- The word for a kind. -/
def name : SymbolKind → String
  | aliasOf _ => "alias"
  | type => "type"
  | constructor _ => "constructor"
  | method => "method"
  | field => "field"
  | «local» => "local"
  | parameter => "parameter"

/-- The symbol is a constructor. -/
def isConstructor : SymbolKind → Bool
  | constructor _ => true
  | _ => false

/-- The symbol is an alias. -/
def isAlias : SymbolKind → Bool
  | aliasOf _ => true
  | _ => false

end SymbolKind

/-- What a name declares. -/
structure Symbol where
  id : Nat
  name : Text
  kind : SymbolKind
  /-- The span of the declaring name. -/
  declaration : Span
  /-- The span in which the name is visible. -/
  scope : Span
  deriving DecidableEq

/-- What a symbol is, its name, and where it is declared. -/
def Symbol.render (s : Symbol) : String :=
  s.kind.name ++ " " ++ String.ofList s.name ++ " at " ++ s.declaration.render

/-- What a referring node stands for: one symbol, or several candidates, or nothing. -/
structure Resolution where
  symbol : Option Symbol
  candidates : List Symbol
  deriving DecidableEq

namespace Resolution

/-- Nothing. -/
def none : Resolution :=
  ⟨.none, []⟩

/-- One symbol. -/
def resolved (s : Symbol) : Resolution :=
  ⟨some s, []⟩

/-- The symbol followed by the candidates. -/
def all (r : Resolution) : List Symbol :=
  r.symbol.toList ++ r.candidates

end Resolution

end Xref
