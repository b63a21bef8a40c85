import Xref.Symbols.Symbol
import Xref.Tree.Basic

/-!
# Memos

What a cache remembers of the questions it has been asked: the tokens of each name, by the form
that equal names share; what each node of its tree stands for, by the number of the node; the
names of aliases; and the words of initializers. Of the last two there is one each, and not yet
having been asked differs from an empty answer.

Counters tell how questions were answered, and how often the semantic model had to be asked.
-/

namespace Xref

/-- How questions were answered. -/
structure Counters where
  /-- Searches answered from the memo. -/
  tokenHits : Nat := 0
  /-- Searches that asked the index. -/
  tokenMisses : Nat := 0
  /-- Searches that the index answered. -/
  skipped : Nat := 0
  textScans : Nat := 0
  treeWalks : Nat := 0
  /-- Nodes answered from the memo. -/
  resolutionHits : Nat := 0
  /-- Nodes that the model was asked about. -/
  resolutionMisses : Nat := 0
  /-- Tokens whose alias the model was asked for. -/
  aliasLookups : Nat := 0
  deriving DecidableEq

/-- How often the model was asked. -/
structure ModelCalls where
  resolve : Nat := 0
  aliases : Nat := 0
  declared : Nat := 0
  deriving DecidableEq

/-- What a cache remembers. -/
structure Memo where
  tokens : List (Text × List PlacedToken) := []
  resolutions : List (Nat × Resolution) := []
  aliasNames : Option (List Text) := none
  initializers : Option (List PlacedToken) := none
  counters : Counters := {}
  calls : ModelCalls := {}

end Xref
