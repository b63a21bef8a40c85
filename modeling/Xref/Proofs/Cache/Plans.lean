import Xref.Proofs.Cache.Run
import Xref.References.Find

/-!
# What a call of a cache performs

A query does not tell which operations of a cache it performs, for it is a function on memos and the
operations in it are gone. The plan that it runs tells them: besides being run, a plan lists what is
performed on a memo, in order (`Plan.steps`). What every operation keeps, with all that has been
performed so far, a plan keeps (`Plan.run_steps`).
-/

namespace Xref

/-- An operation that was performed, how it failed if it did, and how often it asked the model what
a node stands for. -/
structure Performed where
  operation : Operation
  failure? : Option Failure
  resolved : Nat

/-- An operation as it goes on a memo. -/
def Operation.perform (a : Artifacts) (cancelled : Bool) (o : Operation) (m : Memo) : Performed :=
  match o.ask a cancelled m with
  | (.ok _, m') => ⟨o, none, m'.calls.resolve - m.calls.resolve⟩
  | (.error e, m') => ⟨o, some e, m'.calls.resolve - m.calls.resolve⟩

namespace Plan

variable {α β : Type}

/-- What a plan performs on a memo, in order. -/
def steps (a : Artifacts) (cancelled : Bool) : Plan α → Memo → List Performed
  | done _, _ => []
  | checked next, m => if cancelled then [] else (next ()).steps a cancelled m
  | perform o next, m =>
    o.perform a cancelled m ::
      match o.ask a cancelled m with
      | (.ok v, m') => (next v).steps a cancelled m'
      | (.error _, _) => []

variable {a : Artifacts} {cancelled : Bool}

@[simp] theorem run_pure (v : α) : (pure v : Plan α).run a cancelled = pure v := rfl

@[simp] theorem run_bind (x : Plan α) (f : α → Plan β) :
    (x >>= f).run a cancelled = x.run a cancelled >>= fun v => (f v).run a cancelled := by
  funext m
  show (x.bind f).run a cancelled m = _
  induction x generalizing m with
  | done v => rfl
  | checked next ih =>
      simp only [bind, run, Query.run_bind]
      cases cancelled with
      | true => rfl
      | false => exact (ih () m).trans (Query.run_bind ..)
  | perform o next ih =>
      simp only [bind, run, Query.run_bind]
      cases h : o.ask a cancelled m with
      | mk r m' =>
          cases r with
          | ok v => simp only [ih, Query.run_bind]
          | error e => rfl

@[simp] theorem run_ofOperation (o : Operation) :
    (ofOperation o).run a cancelled = o.ask a cancelled := by
  funext m
  show ((o.ask a cancelled >>= fun v => pure v : Query o.Answer)) m = _
  rw [Query.run_bind]
  cases h : o.ask a cancelled m with
  | mk r m' => cases r <;> rfl

/-- What each operation keeps, with all that has been performed so far, a plan keeps. -/
theorem run_steps {P : Memo → List Performed → Prop}
    (h : ∀ (o : Operation) m ps, P m ps →
      P (o.ask a cancelled m).2 (ps ++ [o.perform a cancelled m]))
    (x : Plan α) {m : Memo} {ps : List Performed} (hm : P m ps) :
    P (x.run a cancelled m).2 (ps ++ x.steps a cancelled m) := by
  induction x generalizing m ps with
  | done v =>
      rw [steps, List.append_nil]
      exact hm
  | checked next ih =>
      rw [run, steps, Query.run_bind]
      cases cancelled with
      | true =>
          rw [if_pos rfl, List.append_nil]
          exact hm
      | false => exact ih () hm
  | perform o next ih =>
      have ho := h o m ps hm
      rw [run, steps, Query.run_bind, List.append_cons]
      generalize o.perform a cancelled m = p at ho ⊢
      generalize o.ask a cancelled m = r at ho ⊢
      obtain ⟨r, m'⟩ := r
      cases r with
      | ok v => exact ih v ho
      | error e =>
          rw [List.append_nil]
          exact ho

@[simp] theorem run_ite {p : Prop} [Decidable p] (x y : Plan α) :
    (if p then x else y).run a cancelled =
      if p then x.run a cancelled else y.run a cancelled := by
  split <;> rfl

/-- What a node stands for is told whether or not the call has been cancelled. -/
theorem run_firstSymbol (cancelled : Bool) (p : PlacedNode) :
    (firstSymbol p).run a cancelled = (firstSymbol p).run a false := by
  rw [firstSymbol, run_bind, run_bind]
  rfl

theorem run_declaredBy (cancelled : Bool) (t : PlacedToken) :
    (declaredBy t).run a cancelled = (declaredBy t).run a false := by
  unfold declaredBy
  cases declaringNode? t.parent with
  | none => rfl
  | some n =>
      rw [run_bind, run_bind]
      rfl

/-- So is the symbol at an offset. -/
theorem run_symbolAt (offset : Nat) :
    (symbolAt a offset).run a cancelled = Query.symbolAt a offset := by
  unfold Query.symbolAt symbolAt
  cases a.tree.findToken? offset with
  | none => rfl
  | some t =>
      simp only [run_ite, run_bind, run_pure, run_firstSymbol cancelled,
        run_declaredBy cancelled]
      -- the two programs agree up to the symbol that is declared there
      congr
      funext d
      cases d with
      | none => simp only [run_ite, run_firstSymbol cancelled, run_pure]
      | some d => rfl

end Plan

/-! ## Calls -/

/-- What a cache is called for, on its own or to find references. -/
inductive Call
  | operation (o : Operation)
  | symbolAt (offset : Nat)
  | references (s : Symbol)

namespace Call

/-- What the answer of a call is. -/
def Answer : Call → Type
  | operation o => o.Answer
  | symbolAt _ => Option Symbol
  | references _ => List Location

/-- The query that answers a call. -/
def ask (a : Artifacts) (cancelled : Bool) : (c : Call) → Query c.Answer
  | operation o => o.ask a cancelled
  | symbolAt offset => Query.symbolAt a offset
  | references s => Query.references a s cancelled

/-- The operations that a call is put together from. -/
def plan (a : Artifacts) : (c : Call) → Plan c.Answer
  | operation o => .ofOperation o
  | symbolAt offset => .symbolAt a offset
  | references s => .references a s

/-- The plan of a call is the query that answers it. -/
theorem run_plan (a : Artifacts) (cancelled : Bool) (c : Call) :
    (c.plan a).run a cancelled = c.ask a cancelled := by
  cases c with
  | operation o => exact Plan.run_ofOperation o
  | symbolAt offset => exact Plan.run_symbolAt offset
  | references s => rfl

end Call

end Xref
