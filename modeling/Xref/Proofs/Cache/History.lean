import Xref.Proofs.Cache.Transparency

/-!
# Histories of a cache

Whatever has been asked before, in whatever order and cancelled or not, the next question gets the
answer it would have got first (`Question.ask_remembered`). A history is a list of calls, and the
memo it leaves is truthful, since each call leaves a truthful memo if it finds one. The artifacts of
a cache are snapshots of one version, so its index is of the language of its tree; nothing else is
asked of the index.
-/

namespace Xref

/-- What a cache can be asked. The token of an alias may be one of another tree, as a node may. -/
inductive Question
  | tokens (name : Text)
  | resolution (x : Subject)
  | aliasAt (t : PlacedToken)
  | foreignAliasAt (t : PlacedToken)
  | initializers (x : Subject)
  | symbolAt (offset : Nat)
  | references (s : Symbol)

namespace Question

/-- What the answer to a question is. -/
def Answer : Question → Type
  | tokens _ | initializers _ => List PlacedToken
  | resolution _ => Resolution
  | aliasAt _ | foreignAliasAt _ | symbolAt _ => Option Symbol
  | references _ => List Location

/-- The query that asks a question, with the facts of the cache's own language. -/
def ask (a : Artifacts) (cancelled : Bool) : (q : Question) → Query q.Answer
  | tokens name => Query.tokensOf a name cancelled
  | resolution x => Query.resolve a x
  | aliasAt t => Query.aliasAt a a.facts t cancelled
  | foreignAliasAt t => Query.foreignAliasAt a a.facts t cancelled
  | initializers x => Query.initializers a a.facts x cancelled
  | symbolAt offset => Query.symbolAt a offset
  | references s => Query.references a s cancelled

/-- What is handed over as the cache's own is of its tree. -/
def IsAbout (t : Tree) : Question → Prop
  | resolution (.own p) | initializers (.own p) => p ∈ t.nodes
  | aliasAt x => x ∈ t.tokens
  | _ => True

/-- The answer without a memory. -/
def answer (a : Artifacts) : (q : Question) → q.Answer
  | tokens name => a.found name
  | resolution x => a.resolution x
  | aliasAt t => a.aliasAt t
  | foreignAliasAt _ => Option.none
  | initializers x => a.facts.initializerWords (Query.nodeOf x)
  | symbolAt offset => a.symbolAt offset
  | references s => a.references s

variable {a : Artifacts} {l : Language} {s : SourceText}

/-- Every question leaves a truthful memo and gets its answer. -/
theorem yields_ask (ht : a.tree = .parse l s) (hc : a.comparison = .ofLanguage a.index.language)
    (cancelled : Bool) {q : Question} (hq : q.IsAbout a.tree) :
    Query.Yields a cancelled (q.ask a cancelled) (q.answer a) := by
  cases q with
  | tokens name => exact Query.yields_tokensOf hc name
  | resolution x => exact Query.yields_resolve ht fun p h => by subst h; exact hq
  | aliasAt t => exact Query.yields_aliasAt t
  | foreignAliasAt t => exact Query.yields_foreignAliasAt t
  | initializers x => exact Query.yields_initializers ht fun p h => by subst h; exact hq
  | symbolAt offset => exact Query.yields_symbolAt ht hc offset
  | references s => exact Query.yields_references ht hc s

/-- What a cache remembers after it has been asked questions, each with whether it was cancelled. -/
def remembered (a : Artifacts) (history : List (Question × Bool)) : Memo :=
  history.foldl (fun m r => (r.1.ask a r.2 m).2) {}

theorem truthful_remembered (ht : a.tree = .parse l s)
    (hc : a.comparison = .ofLanguage a.index.language) {history : List (Question × Bool)}
    (hh : ∀ r ∈ history, r.1.IsAbout a.tree) : (remembered a history).Truthful a := by
  have run {m : Memo} (hm : m.Truthful a) :
      (history.foldl (fun m r => (r.1.ask a r.2 m).2) m).Truthful a := by
    induction history generalizing m with
    | nil => exact hm
    | cons r history ih =>
        have hr := (yields_ask ht hc r.2 (hh r List.mem_cons_self) m hm).1
        exact ih (fun q hq => hh q (List.mem_cons_of_mem _ hq)) hr
  exact run (Memo.truthful_empty a)

/-- After any history a question gets the answer that it gets first and not cancelled, unless it is
cancelled itself and says so. -/
theorem ask_remembered (ht : a.tree = .parse l s) (hl : a.languageName = l.name)
    (hi : a.index.language = l) {history : List (Question × Bool)}
    (hh : ∀ r ∈ history, r.1.IsAbout a.tree) {q : Question} (hq : q.IsAbout a.tree)
    (cancelled : Bool) :
    ∃ v, (q.ask a false {}).1 = .ok v ∧
      ((q.ask a cancelled (remembered a history)).1 = .ok v ∨
        (cancelled = true ∧ (q.ask a cancelled (remembered a history)).1 = .error .cancelled)) := by
  have hc : a.comparison = .ofLanguage a.index.language := by
    rw [hi, Query.comparison_of_languageName hl]
  have hm := truthful_remembered ht hc hh
  refine ⟨q.answer a, ?_, (yields_ask ht hc cancelled hq _ hm).2⟩
  rcases (yields_ask ht hc false hq {} (Memo.truthful_empty a)).2 with h | ⟨h, -⟩
  · exact h
  · cases h

theorem ask_remembered_other_spelling :
    let s := SourceText.ofText "Dim Foo".toList 0
    let a := Artifacts.ofTree "a.vb" (.parse .visualBasic s)
    let history := [(tokens "FOO".toList, true), (resolution (.own a.tree.placedRoot), false),
      (tokens "FOO".toList, false)]
    ∃ v, ((tokens "foo".toList).ask a false {}).1 = .ok v ∧
      (((tokens "foo".toList).ask a true (remembered a history)).1 = .ok v ∨
        (true = true ∧
          ((tokens "foo".toList).ask a true (remembered a history)).1 = .error .cancelled)) := by
  intro s a history
  refine ask_remembered (a := a) (l := .visualBasic) (s := s) (q := tokens "foo".toList)
    rfl rfl rfl (fun r hr => ?_) trivial true
  simp only [history, List.mem_cons, List.not_mem_nil, or_false] at hr
  rcases hr with rfl | rfl | rfl
  · exact trivial
  · exact Tree.placedRoot_mem_nodes _
  · exact trivial

end Question

end Xref
