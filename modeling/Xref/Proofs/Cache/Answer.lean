import Xref.Proofs.Search.Outcome
import Xref.References.Find

/-!
# Answers without a memory

What a cache answers, told without what it remembers and without being cancelled. For the operations
these answers are written out (`Artifacts.answer`); what is put together from operations is answered
by its plan, performed with them (`Plan.value`). Whatever the memo, these are the answers of the
queries (`Query.Yields`), so whoever wants to know which references are found can forget how they
were looked up.
-/

namespace Xref

namespace Artifacts

variable (a : Artifacts)

/-- The tokens of a name, as the strategy that the index chooses finds them. -/
def found (name : Text) : List PlacedToken :=
  if name = [] then []
  else (Strategy.select a.index name).found a.tree a.comparison name

/-- The keys of all aliases. -/
def aliasNames : List Text :=
  a.facts.aliasNames a.tree.root

/-- The words of the initializers of the tree. -/
def initializers : List PlacedToken :=
  a.facts.initializerWords a.tree.placedRoot

/-- What a node stands for. -/
def resolution : Subject → Resolution
  | .own p => a.model.resolve p
  | .foreign _ => .none

/-- The token has the name of some alias. -/
def hasAliasName (t : PlacedToken) : Bool :=
  t.token.isIdentifier &&
    a.aliasNames.contains ((Comparison.ofLanguage a.facts).key t.token.value)

/-- The alias that a token names. -/
def aliasAt (t : PlacedToken) : Option Symbol :=
  if a.hasAliasName t then a.model.alias? t.parent else none

/-- The answer of an operation that is performed with the facts of the cache's own language. -/
def answer : (o : Operation) → o.Answer
  | .tokens name => a.found name
  | .resolution x => a.resolution x
  | .declared p => a.model.declared? p
  | .aliasAt _ t => a.aliasAt t
  | .foreignAliasAt _ _ => none
  | .initializers _ x => a.facts.initializerWords (Query.nodeOf x)

end Artifacts

namespace Plan

variable {α β : Type} {answer : (o : Operation) → o.Answer}

/-- What a plan comes to when its operations have certain answers. -/
def value (answer : (o : Operation) → o.Answer) : Plan α → α
  | done v => v
  | checked next => (next ()).value answer
  | perform o next => (next (answer o)).value answer

@[simp] theorem value_pure (v : α) : (pure v : Plan α).value answer = v := rfl

@[simp] theorem value_bind (x : Plan α) (f : α → Plan β) :
    (x >>= f).value answer = (f (x.value answer)).value answer := by
  show (x.bind f).value answer = _
  induction x with
  | done v => rfl
  | checked next ih => exact ih ()
  | perform o next ih => exact ih (answer o)

@[simp] theorem value_ite {p : Prop} [Decidable p] (x y : Plan α) :
    (if p then x else y).value answer =
      if p then x.value answer else y.value answer := by
  split <;> rfl

theorem value_collectOnto (f : α → Plan (List β)) (found : List β) (xs : List α) :
    (collectOnto f found xs).value answer =
      found.reverse ++ xs.flatMap fun x => (f x).value answer := by
  induction xs generalizing found with
  | nil => exact (List.append_nil _).symm
  | cons x xs ih =>
      rw [collectOnto, value_bind, ih, List.reverseAux_eq, List.reverse_append,
        List.reverse_reverse, List.append_assoc, List.flatMap_cons]

@[simp] theorem value_collect (f : α → Plan (List β)) (xs : List α) :
    (collect xs f).value answer = xs.flatMap fun x => (f x).value answer :=
  value_collectOnto f [] xs

variable {a : Artifacts}

@[simp] theorem value_tokensOf (name : Text) :
    (tokensOf name).value a.answer = a.found name := rfl

@[simp] theorem value_resolve (x : Subject) :
    (resolve x).value a.answer = a.resolution x := rfl

@[simp] theorem value_declared (p : PlacedNode) :
    (declared p).value a.answer = a.model.declared? p := rfl

@[simp] theorem value_aliasAt (f : Language) (t : PlacedToken) :
    (aliasAt f t).value a.answer = a.aliasAt t := rfl

@[simp] theorem value_initializers (f : Language) (x : Subject) :
    (initializers f x).value a.answer = a.facts.initializerWords (Query.nodeOf x) := rfl

end Plan

namespace Artifacts

variable (a : Artifacts)

/-- The first symbol that a node stands for. -/
def firstSymbol (p : PlacedNode) : Option Symbol :=
  (Plan.firstSymbol p).value a.answer

/-- The symbol that the node around a token declares by this token. -/
def declaredBy (t : PlacedToken) : Option Symbol :=
  (Plan.declaredBy t).value a.answer

/-- The symbol declared or referred to at an offset. -/
def symbolAt (offset : Nat) : Option Symbol :=
  (Plan.symbolAt a offset).value a.answer

/-- A node stands for a symbol, or has it among its candidates. -/
def standsFor (p : PlacedNode) (s : Symbol) : Bool :=
  (Plan.standsFor p s).value a.answer

/-- How a token refers to a symbol, if it does. -/
def classify (s : Symbol) (t : PlacedToken) : Option ReferenceKind :=
  (Plan.classify a s t).value a.answer

/-- How the word of an initializer refers to a constructor, if it does. -/
def classifyInitializer (s : Symbol) (t : PlacedToken) : Option ReferenceKind :=
  (Plan.classifyInitializer s t).value a.answer

/-- The name of the alias that an import declares for a type. -/
def aliasFor (type : Symbol) (p : PlacedNode) : List Text :=
  (Plan.aliasFor a type p).value a.answer

/-- The names under which a symbol may be referred to. -/
def namesOf (s : Symbol) : List Text :=
  (Plan.namesOf a s).value a.answer

/-- The locations that refer to a symbol by one of the names. -/
def locateNames (s : Symbol) (names : List Text) : List Location :=
  (Plan.locateNames a s names).value a.answer

/-- The initializers that call a constructor. -/
def locateInitializers (s : Symbol) : List Location :=
  (Plan.locateInitializers a s).value a.answer

/-- Every location that refers to a symbol, in document order. -/
def references (s : Symbol) : List Location :=
  (Plan.references a s).value a.answer

variable {a} {loc : Location} {s : Symbol} {t : PlacedToken} {offset : Nat}

theorem declaredBy_eq (t : PlacedToken) :
    a.declaredBy t = (Plan.declaringNode? t.parent).bind fun n =>
      (a.model.declared? n).filter fun s => s.declaration == t.token.span := by
  unfold declaredBy Plan.declaredBy
  cases Plan.declaringNode? t.parent with
  | none => rfl
  | some n => rw [Plan.value_bind, Plan.value_declared, Plan.value_pure, Option.bind_some]

/-- At a place without a token is no symbol. -/
theorem symbolAt_none (h : a.tree.findToken? offset = none) : a.symbolAt offset = none := by
  rw [symbolAt, Plan.symbolAt, h]
  rfl

/-- The word of an initializer has what its node stands for; any other token what it declares, or as
a name what it stands for. -/
theorem symbolAt_some (h : a.tree.findToken? offset = some t) :
    a.symbolAt offset =
      if offset > t.token.span.stop || t.token.isMissing then none
      else if a.facts.isInitializerWord t then a.firstSymbol t.parent
      else (a.declaredBy t).or
        (if t.token.kind == .identifier && t.parent.kind == .identifierName then
          a.firstSymbol t.parent else none) := by
  rw [symbolAt, Plan.symbolAt, h]
  simp only [firstSymbol, declaredBy, Plan.value_ite, Plan.value_bind, Plan.value_pure]
  cases (Plan.declaredBy t).value a.answer with
  | none => rw [Option.none_or, Plan.value_ite, Plan.value_pure]
  | some s => rw [Option.some_or, Plan.value_pure]

theorem mem_locate {how : PlacedToken → Plan (Option ReferenceKind)} {ts : List PlacedToken} :
    loc ∈ (Plan.locate a how ts).value a.answer ↔
      ∃ t ∈ ts, ∃ k, (how t).value a.answer = some k ∧ loc = .ofToken a.source t.token k := by
  simp only [Plan.locate, Plan.value_collect, Plan.value_bind, Plan.value_pure, List.mem_flatMap,
    Option.mem_toList, Option.map_eq_some_iff, eq_comm (a := loc)]

theorem mem_locateNames_iff {names : List Text} :
    loc ∈ a.locateNames s names ↔ ∃ n ∈ names, ∃ t ∈ a.found n, ∃ k,
      a.classify s t = some k ∧ loc = .ofToken a.source t.token k := by
  simp only [locateNames, Plan.locateNames, Plan.value_collect, Plan.value_bind, List.mem_flatMap,
    Plan.value_tokensOf, mem_locate, classify]

theorem references_eq (s : Symbol) :
    a.references s = Location.inOrder (a.locateNames s (a.namesOf s) ++
      Plan.missedDefinition a s (a.locateNames s (a.namesOf s)) ++ a.locateInitializers s) := by
  simp only [references, Plan.references, Plan.value_bind, Plan.value_pure]
  rfl

end Artifacts

end Xref
