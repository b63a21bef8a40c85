import Xref.Cache.Plan
import Xref.References.Location

/-!
# Finding references

Candidates come from the search for a name: the symbol's own, and for a type the names of the
aliases that stand for it. Each candidate is confirmed by what its node stands for. A constructor
is also found at the initializers that call it.
-/

namespace Xref

namespace Plan

/-- The first symbol that a node stands for. -/
def firstSymbol (p : PlacedNode) : Plan (Option Symbol) := do
  return (← resolve (.own p)).all.head?

/-- The node that may declare a symbol at a token: the node around the token, or the import around
an alias. -/
def declaringNode? (p : PlacedNode) : Option PlacedNode :=
  if p.kind = .nameEquals then p.parent? else some p

/-- The symbol that the node around a token declares by this token. -/
def declaredBy (t : PlacedToken) : Plan (Option Symbol) :=
  match declaringNode? t.parent with
  | none => return none
  | some n => return (← declared n).filter fun s => s.declaration == t.token.span

/-- The symbol declared or referred to at an offset, which may be on a token or just behind it. -/
def symbolAt (a : Artifacts) (offset : Nat) : Plan (Option Symbol) :=
  match a.tree.findToken? offset with
  | none => return none
  | some t => do
    if offset > t.token.span.stop || t.token.isMissing then return none
    if a.facts.isInitializerWord t then firstSymbol t.parent
    else
      match ← declaredBy t with
      | some s => return some s
      | none =>
        if t.token.kind == .identifier && t.parent.kind == .identifierName then
          firstSymbol t.parent
        else return none

/-- A node stands for a symbol, or has it among its candidates. -/
def standsFor (p : PlacedNode) (s : Symbol) : Plan Bool := do
  return (← resolve (.own p)).all.any fun c => c.id == s.id

/-- How a token refers to a symbol, if it does. -/
def classify (a : Artifacts) (s : Symbol) (t : PlacedToken) : Plan (Option ReferenceKind) := do
  if t.token.span == s.declaration then return some .definition
  if t.parent.kind != .identifierName then return none
  let used ← aliasAt a.facts t
  if s.kind.isAlias then
    return if used.any fun u => u.id == s.id then some .aliasReference else none
  else
    if ← standsFor t.parent s then
      return some (if used.isSome then .aliasReference else .reference)
    else return none

/-- How the word of an initializer refers to a constructor, if it does. -/
def classifyInitializer (s : Symbol) (t : PlacedToken) : Plan (Option ReferenceKind) := do
  return if ← standsFor t.parent s then some .constructorInitializer else none

/-- The locations of the tokens that refer to a symbol. -/
def locate (a : Artifacts) (how : PlacedToken → Plan (Option ReferenceKind))
    (ts : List PlacedToken) : Plan (List Location) :=
  collect ts fun t => do
    check
    return ((← how t).map (Location.ofToken a.source t.token)).toList

/-- The alias of another name that an import declares for a type. -/
def aliasFor (a : Artifacts) (type : Symbol) (p : PlacedNode) : Plan (List Text) := do
  match ← declared p with
  | some ⟨_, name, .aliasOf target, _, _⟩ =>
    let m := a.comparison
    if m.equal (target.afterLast '.') type.name && !m.equal name type.name then return [name]
    else return []
  | _ => return []

/-- The names of the aliases whose targets name a type, among the given nodes. -/
def aliasesFor (a : Artifacts) (type : Symbol) (ps : List PlacedNode) : Plan (List Text) :=
  collect ps fun p => do
    check
    if p.kind = .usingDirective then aliasFor a type p else return []

/-- The names under which a symbol may be referred to. -/
def namesOf (a : Artifacts) (s : Symbol) : Plan (List Text) := do
  if s.kind = .type then
    return s.name :: (← aliasesFor a s a.tree.placedRoot.descendants)
  else return [s.name]

/-- The locations that refer to a symbol by one of the names. -/
def locateNames (a : Artifacts) (s : Symbol) (names : List Text) : Plan (List Location) :=
  collect names fun n => do locate a (classify a s) (← tokensOf n)

/-- The location of a declaring token that is not a name, as in `Sub New`: no search finds it. -/
def missedDefinition (a : Artifacts) (s : Symbol) (found : List Location) : List Location :=
  if found.any fun l => l.kind == .definition then []
  else
    match a.tree.findToken? s.declaration.start with
    | none => []
    | some t =>
      if t.token.span == s.declaration then [.ofToken a.source t.token .definition] else []

/-- The initializers that call a constructor. -/
def locateInitializers (a : Artifacts) (s : Symbol) : Plan (List Location) := do
  if s.kind.isConstructor then
    locate a (classifyInitializer s) (← initializers a.facts (.own a.tree.placedRoot))
  else return []

/-- Every location that refers to a symbol, in document order. -/
def references (a : Artifacts) (s : Symbol) : Plan (List Location) := do
  let found ← locateNames a s (← namesOf a s)
  let initializers ← locateInitializers a s
  return Location.inOrder (found ++ missedDefinition a s found ++ initializers)

end Plan

namespace Query

/-- The symbol declared or referred to at an offset. Whoever asks cannot cancel. -/
def symbolAt (a : Artifacts) (offset : Nat) : Query (Option Symbol) :=
  (Plan.symbolAt a offset).run a false

/-- Every location that refers to a symbol, in document order. -/
def references (a : Artifacts) (s : Symbol) (cancelled : Bool) : Query (List Location) :=
  (Plan.references a s).run a cancelled

end Query

end Xref
