import Xref.Proofs.Cache.Facts
import Xref.Proofs.Cache.History
import Xref.Proofs.References.Exact

/-!
# The names of aliases lose no alias

A cache collects the names of all aliases once, and only the tokens that have one of them are handed
to the model. Nothing is lost: whatever was asked before, a token gets the alias that the model
knows for its node (`Query.aliasAt_exact`).

The names come from the nodes that name an alias, compared by the facts of the language; the aliases
of the model come from the imports around these nodes, with the model's own key and with scopes. The
two agree on what matters. Every import that declares an alias has such a node, with the declaring
name in it, and the two keys are one; what is in scope and what is no alias at all the model decides
alone. The words of directives and the tokens that the text lacks are no names, so the model has no
alias for them either.
-/

namespace Xref

variable {a : Artifacts} {l : Language} {s : SourceText} {t : PlacedToken} {m : Memo}

namespace Artifacts.IsOf

/-- Asking the model about the names of aliases only misses no alias, whatever the token. -/
theorem aliasAt_eq_alias? (ha : a.IsOf l s) (ht : t ∈ a.tree.tokens) :
    a.aliasAt t = a.model.alias? t.parent := by
  by_cases hk : t.parent.kind = .identifierName
  · exact ha.aliasAt_eq ht hk
  · have hn : a.model.alias? t.parent = none := if_neg hk
    rw [aliasAt, hn]
    exact ite_self _

end Artifacts.IsOf

namespace Query

/-- The model is asked about a token if it has the name of an alias, and only then. -/
theorem calls_aliasAt (hm : m.Truthful a) :
    (aliasAt a a.facts t false m).2.calls =
      { m.calls with aliases := m.calls.aliases + if a.hasAliasName t then 1 else 0 } := by
  have hn : m.aliasNames.getD (a.facts.aliasNames a.tree.root) = a.aliasNames := by
    cases h : m.aliasNames with
    | none => rfl
    | some ns => exact hm.aliasNames ns h
  unfold aliasAt hasAliasName
  simp only [run_bind, FactsCall.run_aliasNames, hn]
  by_cases h : a.hasAliasName t = true
  · rw [if_pos h]
    rw [Artifacts.hasAliasName] at h
    rw [if_pos h]
    rfl
  · rw [if_neg h]
    rw [Artifacts.hasAliasName] at h
    rw [if_neg h]
    rfl

/-- After any history a token is answered with the alias that the model knows for its node, although
only tokens with the name of an alias are handed to the model. -/
theorem aliasAt_exact (ha : a.IsOf l s) {history : List (Question × Bool)}
    (hh : ∀ r ∈ history, r.1.IsAbout a.tree) (ht : t ∈ a.tree.tokens) :
    let m := Question.remembered a history
    (aliasAt a a.facts t false m).1 = .ok (a.model.alias? t.parent) ∧
      (aliasAt a a.facts t false m).2.calls =
        { m.calls with aliases := m.calls.aliases + if a.hasAliasName t then 1 else 0 } := by
  intro m
  have hm : m.Truthful a := Question.truthful_remembered ha.tree ha.comparison_index hh
  refine ⟨?_, calls_aliasAt hm⟩
  rw [← ha.aliasAt_eq_alias? ht]
  exact (yields_aliasAt t).run_live hm

/-- The last name is the alias of the namespace around it. -/
theorem aliasAt_exact_in_namespace :
    let s := SourceText.ofText
      "Imports A = B\nNamespace N\nImports A = C\nDim x As a\nEnd Namespace".toList 0
    let a := Artifacts.ofTree "a.vb" (.parse .visualBasic s)
    let history := [(Question.tokens "a".toList, true), (.symbolAt 0, false)]
    let m := Question.remembered a history
    ∃ t ∈ a.tree.tokens, t.parent.kind = .identifierName ∧ t.token.text = "a".toList ∧
      (aliasAt a a.facts t false m).1 = .ok (a.model.alias? t.parent) ∧
        (aliasAt a a.facts t false m).2.calls =
          { m.calls with aliases := m.calls.aliases + if a.hasAliasName t then 1 else 0 } := by
  intro s a history m
  have ha : a.IsOf .visualBasic s := ⟨rfl, rfl, ⟨false, rfl⟩, ⟨_, _, rfl⟩, rfl⟩
  have h : (a.tree.tokens.toList.any fun t =>
      t.parent.kind == .identifierName && t.token.text == "a".toList &&
        (a.model.alias? t.parent).isSome) = true := by
    decide +kernel
  obtain ⟨t, ht, hb⟩ := List.any_eq_true.1 h
  simp only [Bool.and_eq_true, beq_iff_eq] at hb
  rw [Array.mem_toList_iff] at ht
  have hh : ∀ r ∈ history, r.1.IsAbout a.tree := by
    intro r hr
    simp only [history, List.mem_cons, List.not_mem_nil, or_false] at hr
    rcases hr with rfl | rfl
    · exact trivial
    · exact trivial
  exact ⟨t, ht, hb.1.1, hb.1.2, aliasAt_exact ha hh ht⟩

end Query

end Xref
