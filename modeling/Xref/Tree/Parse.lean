import Xref.Grammar.CSharp
import Xref.Grammar.VisualBasic
import Xref.Tree.Basic

/-!
# Reading a text as a tree

Every text of either language has a tree.
-/

namespace Xref

/-- The events that describe the lexemes of a text. -/
def Event.ofLexemes : Language → LexemeSeq → List Event
  | .csharp => CSharp.events
  | .visualBasic => VisualBasic.events

/-- The tree of a source text. -/
def Tree.parse (l : Language) (s : SourceText) : Tree :=
  .ofEvents l s (Event.ofLexemes l (LexemeSeq.ofText l s.chars))

end Xref
