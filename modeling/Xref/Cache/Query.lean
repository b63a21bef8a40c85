import Xref.Cache.Artifacts
import Xref.Cache.Memo

/-!
# Queries

A query is asked of the artifacts of a document and of what has been remembered about them. It
answers or fails, and leaves the memo changed either way. A search that fails stores nothing.

A query is given whether its caller has already cancelled it. Answers from the memo are given all
the same; everything that takes steps fails at its first one.
-/

namespace Xref

/-- A question to a cache. -/
abbrev Query (α : Type) := ExceptT Failure (StateM Memo) α

/-- A node handed to a cache: one of its own tree, or of another. -/
inductive Subject
  | own (p : PlacedNode)
  | foreign (p : PlacedNode)

namespace Query

/-- Takes over an outcome. -/
def ofExcept {α : Type} (e : Except Failure α) : Query α :=
  fun m => (e, m)

/-- Changes the counters. -/
def count (f : Counters → Counters) : Query Unit :=
  modify fun m => { m with counters := f m.counters }

/-- Counts a call of the model. -/
def countCall (f : ModelCalls → ModelCalls) : Query Unit :=
  modify fun m => { m with calls := f m.calls }

/-- Fails once the query is cancelled. -/
def check (cancelled : Bool) : Query Unit :=
  ofExcept (checkCancelled cancelled)

/-! ## Tokens of a name -/

/-- Counts a search by its strategy. -/
def countStrategy : Strategy → Counters → Counters
  | .skip, n => { n with skipped := n.skipped + 1 }
  | .textScan, n => { n with textScans := n.textScans + 1 }
  | .treeWalk, n => { n with treeWalks := n.treeWalks + 1 }

/-- The tokens that match a name, in document order; none for the empty name. -/
def tokensOf (a : Artifacts) (name : Text) (cancelled : Bool) : Query (List PlacedToken) := do
  if name = [] then return []
  let key := a.comparison.key name
  match (← get).tokens.lookup key with
  | some ts =>
    count fun n => { n with tokenHits := n.tokenHits + 1 }
    return ts
  | none =>
    count fun n => { n with tokenMisses := n.tokenMisses + 1 }
    let s := Strategy.select a.index name
    count (countStrategy s)
    let ts ← ofExcept (s.run a.tree a.comparison name cancelled)
    modify fun m => { m with tokens := (key, ts) :: m.tokens }
    return ts

/-! ## What nodes stand for -/

/-- What a node stands for. The model knows nothing of other trees, and is asked every time. -/
def resolve (a : Artifacts) : Subject → Query Resolution
  | .foreign _ => do
    countCall fun n => { n with resolve := n.resolve + 1 }
    return .none
  | .own p => do
    match (← get).resolutions.lookup p.id with
    | some r =>
      count fun n => { n with resolutionHits := n.resolutionHits + 1 }
      return r
    | none =>
      count fun n => { n with resolutionMisses := n.resolutionMisses + 1 }
      countCall fun n => { n with resolve := n.resolve + 1 }
      let r := a.model.resolve p
      modify fun m => { m with resolutions := (p.id, r) :: m.resolutions }
      return r

/-- The symbol that a node declares. -/
def declared (a : Artifacts) (p : PlacedNode) : Query (Option Symbol) := do
  countCall fun n => { n with declared := n.declared + 1 }
  return a.model.declared? p

/-! ## Aliases -/

/-- The keys of all aliases, collected once. -/
def aliasNames (a : Artifacts) (facts : Language) (cancelled : Bool) : Query (List Text) := do
  match (← get).aliasNames with
  | some ns => return ns
  | none =>
    check cancelled
    let ns := facts.aliasNames a.tree.root
    modify fun m => { m with aliasNames := some ns }
    return ns

/-- The token has the name of some alias. Only such tokens are handed to the model. -/
def hasAliasName (a : Artifacts) (facts : Language) (t : PlacedToken) (cancelled : Bool) :
    Query Bool := do
  let names ← aliasNames a facts cancelled
  if t.token.isIdentifier && names.contains ((Comparison.ofLanguage facts).key t.token.value) then
    count fun n => { n with aliasLookups := n.aliasLookups + 1 }
    countCall fun n => { n with aliases := n.aliases + 1 }
    return true
  else return false

/-- The alias that a token names. -/
def aliasAt (a : Artifacts) (facts : Language) (t : PlacedToken) (cancelled : Bool) :
    Query (Option Symbol) := do
  if ← hasAliasName a facts t cancelled then return a.model.alias? t.parent else return none

/-- The alias that a token of another tree names: none, for the model knows nothing of other trees,
but it is asked all the same. -/
def foreignAliasAt (a : Artifacts) (facts : Language) (t : PlacedToken) (cancelled : Bool) :
    Query (Option Symbol) := do
  let _ ← hasAliasName a facts t cancelled
  return none

/-! ## Constructor initializers -/

/-- The node is the root of the cache's own tree. -/
def isOwnRoot : Subject → Bool
  | .own p => p.id == 0
  | .foreign _ => false

/-- The node itself. -/
def nodeOf : Subject → PlacedNode
  | .own p => p
  | .foreign p => p

/-- The words of the initializers below a node. Those of the whole tree are collected once. -/
def initializers (a : Artifacts) (facts : Language) (s : Subject) (cancelled : Bool) :
    Query (List PlacedToken) := do
  if isOwnRoot s then
    match (← get).initializers with
    | some ts => return ts
    | none =>
      check cancelled
      let ts := facts.initializerWords a.tree.placedRoot
      modify fun m => { m with initializers := some ts }
      return ts
  else
    check cancelled
    return facts.initializerWords (nodeOf s)

end Query

end Xref
