import Xref.Cache.Query

/-!
# Plans

What is asked of a cache from outside is put together from a few operations: searching for a name,
asking what a node stands for or declares, looking up an alias, collecting initializers. Which of
them are performed depends on the answers on the way, and between them it may turn out that the
caller has cancelled. A plan is such a program. Run on a cache it is a query, and the operations in
it can still be told.
-/

namespace Xref

/-- What a cache does when it is called, with the caller's facts where it needs any. -/
inductive Operation
  | tokens (name : Text)
  | resolution (x : Subject)
  | declared (p : PlacedNode)
  | aliasAt (facts : Language) (t : PlacedToken)
  | foreignAliasAt (facts : Language) (t : PlacedToken)
  | initializers (facts : Language) (x : Subject)

namespace Operation

/-- What the answer of an operation is. -/
def Answer : Operation → Type
  | tokens _ | initializers _ _ => List PlacedToken
  | resolution _ => Resolution
  | declared _ | aliasAt _ _ | foreignAliasAt _ _ => Option Symbol

/-- The query that performs an operation. -/
def ask (a : Artifacts) (cancelled : Bool) : (o : Operation) → Query o.Answer
  | tokens name => Query.tokensOf a name cancelled
  | resolution x => Query.resolve a x
  | declared p => Query.declared a p
  | aliasAt f t => Query.aliasAt a f t cancelled
  | foreignAliasAt f t => Query.foreignAliasAt a f t cancelled
  | initializers f x => Query.initializers a f x cancelled

end Operation

/-- A program over the operations of a cache. -/
inductive Plan (α : Type)
  | done (v : α)
  /-- Goes on unless the call has been cancelled. -/
  | checked (next : Unit → Plan α)
  | perform (o : Operation) (next : o.Answer → Plan α)

namespace Plan

variable {α β : Type}

/-- One plan behind another. -/
def bind (x : Plan α) (f : α → Plan β) : Plan β :=
  match x with
  | done v => f v
  | checked next => checked fun _ => (next ()).bind f
  | perform o next => perform o fun v => (next v).bind f

instance : Monad Plan where
  pure := done
  bind := bind

/-- The query that a plan is. -/
def run (a : Artifacts) (cancelled : Bool) : Plan α → Query α
  | done v => pure v
  | checked next => Query.check cancelled >>= fun _ => (next ()).run a cancelled
  | perform o next => o.ask a cancelled >>= fun v => (next v).run a cancelled

/-- An operation alone. -/
def ofOperation (o : Operation) : Plan o.Answer :=
  perform o pure

/-- Fails once the call is cancelled. -/
def check : Plan Unit :=
  checked pure

/-- Searches for a name. -/
def tokensOf (name : Text) : Plan (List PlacedToken) :=
  ofOperation (.tokens name)

/-- Asks what a node stands for. -/
def resolve (x : Subject) : Plan Resolution :=
  ofOperation (.resolution x)

/-- Asks what a node declares. -/
def declared (p : PlacedNode) : Plan (Option Symbol) :=
  ofOperation (.declared p)

/-- Looks up the alias that a token names. -/
def aliasAt (facts : Language) (t : PlacedToken) : Plan (Option Symbol) :=
  ofOperation (.aliasAt facts t)

/-- Collects the words of the initializers below a node. -/
def initializers (facts : Language) (x : Subject) : Plan (List PlacedToken) :=
  ofOperation (.initializers facts x)

/-- What a plan finds for each of some things, in order, behind what has been found before, which is
given last first. -/
def collectOnto (f : α → Plan (List β)) : List β → List α → Plan (List β)
  | found, [] => return found.reverse
  | found, x :: xs => do
    let here ← f x
    collectOnto f (here.reverseAux found) xs

/-- What a plan finds for each of some things, in order. -/
def collect (xs : List α) (f : α → Plan (List β)) : Plan (List β) :=
  collectOnto f [] xs

end Plan

end Xref
