import Xref.Cache.Query

/-!
# Running a query

A query is a function from a memo to an outcome and a memo. These equations say what the steps of a
query do to both, so that a query can be run on a memo by rewriting.
-/

namespace Xref.Query

variable {α β : Type}

@[simp] theorem run_pure (v : α) (m : Memo) : (pure v : Query α) m = (.ok v, m) := rfl

@[simp] theorem run_bind (x : Query α) (f : α → Query β) (m : Memo) :
    (x >>= f) m =
      match x m with
      | (.ok v, m') => f v m'
      | (.error e, m') => (.error e, m') := by
  show (ExceptT.bindCont f (x m).1) (x m).2 = _
  generalize x m = r
  obtain ⟨v | v, m'⟩ := r <;> rfl

@[simp] theorem run_get (m : Memo) : (get : Query Memo) m = (.ok m, m) := rfl

@[simp] theorem run_modify (f : Memo → Memo) (m : Memo) :
    (modify f : Query Unit) m = (.ok (), f m) := rfl

@[simp] theorem run_ofExcept (e : Except Failure α) (m : Memo) :
    (ofExcept e : Query α) m = (e, m) := rfl

@[simp] theorem run_count (f : Counters → Counters) (m : Memo) :
    count f m = (.ok (), { m with counters := f m.counters }) := rfl

@[simp] theorem run_countCall (f : ModelCalls → ModelCalls) (m : Memo) :
    countCall f m = (.ok (), { m with calls := f m.calls }) := rfl

/-- A search that nothing is remembered of runs the strategy that the index chooses. -/
theorem tokensOf_fresh {a : Artifacts} {name : Text} (hn : name ≠ []) (cancelled : Bool) :
    (tokensOf a name cancelled {}).1 =
      (Strategy.select a.index name).run a.tree a.comparison name cancelled := by
  unfold tokensOf
  simp only [hn, if_false, run_bind, run_pure, run_get, List.lookup_nil, run_count, run_ofExcept,
    run_modify]
  cases (Strategy.select a.index name).run a.tree a.comparison name cancelled <;> rfl

end Xref.Query
