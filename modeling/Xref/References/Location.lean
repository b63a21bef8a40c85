import Xref.Text.Source
import Xref.Tree.Basic

/-!
# Locations of references

A location is a token of the text that declares a symbol or refers to it. Locations are shown in
document order, one for each place; where one place refers in two ways, the first of the kinds
below is kept.
-/

namespace Xref

/-- How a location refers to a symbol. -/
inductive ReferenceKind
  /-- The declaring name. -/
  | definition
  /-- A use of the name. -/
  | reference
  /-- A use through an alias. -/
  | aliasReference
  /-- A constructor initializer. -/
  | constructorInitializer
  deriving DecidableEq

namespace ReferenceKind

/-- The place of a kind in the order of kinds. -/
def rank : ReferenceKind → Nat
  | definition => 0
  | reference => 1
  | aliasReference => 2
  | constructorInitializer => 3

/-- The words for a kind. -/
def words : ReferenceKind → String
  | definition => "definition"
  | reference => "reference"
  | aliasReference => "alias reference"
  | constructorInitializer => "constructor initializer"

/-- The kind as one word. -/
def tag : ReferenceKind → String
  | definition => "definition"
  | reference => "reference"
  | aliasReference => "alias_reference"
  | constructorInitializer => "constructor_initializer"

end ReferenceKind

/-- Where a symbol is declared or referred to. -/
structure Location where
  line : Nat
  startColumn : Nat
  stopColumn : Nat
  span : Span
  kind : ReferenceKind
  deriving DecidableEq

namespace Location

/-- The location of a token. A token that goes over several lines ends at the column where it
starts. -/
def ofToken (s : SourceText) (t : Token) (kind : ReferenceKind) : Location :=
  let start := s.position t.span.start
  let stop := s.position t.span.stop
  { line := start.line, startColumn := start.column,
    stopColumn := if stop.line = start.line then stop.column else start.column,
    span := t.span, kind }

/-- Order by start, then by kind. -/
def notAfter (a b : Location) : Bool :=
  a.span.start < b.span.start || (a.span.start == b.span.start && a.kind.rank ≤ b.kind.rank)

/-- Drops locations that start where the one before them does. -/
def dropRepeats : List Location → List Location
  | [] => []
  | a :: r => a :: go a r
where
  /-- What is left after `a` has been kept. -/
  go (a : Location) : List Location → List Location
    | [] => []
    | b :: r => if b.span.start = a.span.start then go a r else b :: go b r

/-- Locations in document order, one for each place. -/
def inOrder (ls : List Location) : List Location :=
  dropRepeats (ls.mergeSort notAfter)

end Location

end Xref
