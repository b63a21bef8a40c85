import Xref.Proofs.Cache.Run
import Xref.Proofs.Tree.Parse

/-!
# Facts that callers bring

The names of aliases and the words of initializers are collected with the facts of whoever asks
first, and kept in one place each that does not tell whose facts these were. Whoever asks later gets
what the first caller of the same kind had collected (`FactsCall.answered_under_first_facts`): the
words of initializers as they are, and of an alias only the comparison of the name is the caller's
own. So callers that share their facts never notice, and callers that do not may
(`FactsCall.other_facts_answered_apart`).
-/

namespace Xref

/-- A question that is asked with the caller's facts. The token of an alias may be one of another
tree, as a node may. -/
inductive FactsCall
  | aliasAt (facts : Language) (t : PlacedToken)
  | foreignAliasAt (facts : Language) (t : PlacedToken)
  | initializers (facts : Language) (x : Subject)

namespace FactsCall

/-- What is remembered after a call that is not cancelled. -/
def leave (a : Artifacts) (m : Memo) : FactsCall → Memo
  | aliasAt f t => (Query.aliasAt a f t false m).2
  | foreignAliasAt f t => (Query.foreignAliasAt a f t false m).2
  | initializers f x => (Query.initializers a f x false m).2

/-- What a cache remembers after it has been called. -/
def remembered (a : Artifacts) (history : List FactsCall) : Memo :=
  history.foldl (leave a) {}

/-- The facts of a call that needs the names of aliases. -/
def aliasFacts? : FactsCall → Option Language
  | aliasAt f _ | foreignAliasAt f _ => some f
  | initializers _ _ => none

/-- The facts of a call that needs the words of all initializers. -/
def initializerFacts? : FactsCall → Option Language
  | initializers f x => if Query.isOwnRoot x then some f else none
  | aliasAt _ _ | foreignAliasAt _ _ => none

/-- The alias that a token names, where the names of aliases were collected with some facts and the
token is compared with others. -/
def aliasUnder (a : Artifacts) (collected compared : Language) (t : PlacedToken) : Option Symbol :=
  if t.token.isIdentifier && (collected.aliasNames a.tree.root).contains
      ((Comparison.ofLanguage compared).key t.token.value) then
    a.model.alias? t.parent
  else none

variable {a : Artifacts} {m : Memo} {f : Language} {t : PlacedToken}

/-! ## What one call does -/

/-- The names of aliases are those remembered, else they are collected; then they are remembered. -/
theorem run_aliasNames (a : Artifacts) (f : Language) (m : Memo) :
    Query.aliasNames a f false m =
      (.ok (m.aliasNames.getD (f.aliasNames a.tree.root)),
        { m with aliasNames := some (m.aliasNames.getD (f.aliasNames a.tree.root)) }) := by
  unfold Query.aliasNames
  rw [Query.run_bind, Query.run_get]
  cases hm : m.aliasNames with
  | some ns =>
      have he : { m with aliasNames := some ns } = m := by rw [← hm]
      simp only [hm, Query.run_pure, Option.getD_some, he]
  | none => simp only [hm, Option.getD_none]; rfl

theorem run_hasAliasName (a : Artifacts) (f : Language) (t : PlacedToken) (m : Memo) :
    ∃ m', Query.hasAliasName a f t false m =
        (.ok (t.token.isIdentifier && (m.aliasNames.getD (f.aliasNames a.tree.root)).contains
          ((Comparison.ofLanguage f).key t.token.value)), m') ∧
      m'.aliasNames = some (m.aliasNames.getD (f.aliasNames a.tree.root)) ∧
      m'.initializers = m.initializers := by
  unfold Query.hasAliasName
  rw [Query.run_bind, run_aliasNames]
  generalize m.aliasNames.getD (f.aliasNames a.tree.root) = names
  dsimp only
  cases t.token.isIdentifier && names.contains ((Comparison.ofLanguage f).key t.token.value) with
  | true => exact ⟨_, rfl, rfl, rfl⟩
  | false => exact ⟨_, rfl, rfl, rfl⟩

/-- An alias is looked for among the names that are remembered, else among those that are collected
for it. -/
theorem run_aliasAt (a : Artifacts) (f : Language) (t : PlacedToken) (m : Memo) :
    (Query.aliasAt a f t false m).1 = .ok
        (if t.token.isIdentifier && (m.aliasNames.getD (f.aliasNames a.tree.root)).contains
            ((Comparison.ofLanguage f).key t.token.value) then a.model.alias? t.parent else none) ∧
      (Query.aliasAt a f t false m).2.aliasNames =
        some (m.aliasNames.getD (f.aliasNames a.tree.root)) ∧
      (Query.aliasAt a f t false m).2.initializers = m.initializers := by
  obtain ⟨m', hr, hn, hi⟩ := run_hasAliasName a f t m
  unfold Query.aliasAt
  rw [Query.run_bind, hr]
  dsimp only
  split <;> exact ⟨rfl, hn, hi⟩

theorem run_initializers (a : Artifacts) (f : Language) (m : Memo) {x : Subject}
    (hx : Query.isOwnRoot x = true) :
    Query.initializers a f x false m =
      (.ok (m.initializers.getD (f.initializerWords a.tree.placedRoot)),
        { m with
          initializers := some (m.initializers.getD (f.initializerWords a.tree.placedRoot)) }) := by
  unfold Query.initializers
  rw [if_pos hx, Query.run_bind, Query.run_get]
  cases hm : m.initializers with
  | some ts =>
      have he : { m with initializers := some ts } = m := by rw [← hm]
      simp only [hm, Query.run_pure, Option.getD_some, he]
  | none => simp only [hm, Option.getD_none]; rfl

theorem run_initializers_other (a : Artifacts) (f : Language) (m : Memo) {x : Subject}
    (hx : ¬ Query.isOwnRoot x = true) :
    Query.initializers a f x false m = (.ok (f.initializerWords (Query.nodeOf x)), m) := by
  unfold Query.initializers
  rw [if_neg hx]
  rfl

/-! ## What stays -/

/-- Something that is collected unless it is remembered. -/
theorem some_getD_eq_or {α : Type} (o : Option α) (v : α) : some (o.getD v) = o.or (some v) := by
  cases o <;> rfl

/-- A call fills the places that it needs and finds empty, and changes none that is filled. -/
theorem leave_fills (a : Artifacts) (m : Memo) (c : FactsCall) :
    (leave a m c).aliasNames =
        m.aliasNames.or (c.aliasFacts?.map fun f => f.aliasNames a.tree.root) ∧
      (leave a m c).initializers = m.initializers.or
        (c.initializerFacts?.map fun f => f.initializerWords a.tree.placedRoot) := by
  cases c with
  | aliasAt f t =>
      obtain ⟨-, hn, hi⟩ := run_aliasAt a f t m
      exact ⟨hn.trans (some_getD_eq_or _ _), hi.trans (Option.or_none).symm⟩
  | foreignAliasAt f t =>
      obtain ⟨m', hr, hn, hi⟩ := run_hasAliasName a f t m
      have hl : leave a m (foreignAliasAt f t) = m' := by
        rw [leave, Query.foreignAliasAt, Query.run_bind, hr]
        rfl
      rw [hl]
      exact ⟨hn.trans (some_getD_eq_or _ _), hi.trans (Option.or_none).symm⟩
  | initializers f x =>
      by_cases hx : Query.isOwnRoot x = true
      · rw [leave, run_initializers a f m hx, initializerFacts?, if_pos hx]
        exact ⟨(Option.or_none).symm, some_getD_eq_or _ _⟩
      · rw [leave, run_initializers_other a f m hx, initializerFacts?, if_neg hx]
        exact ⟨(Option.or_none).symm, (Option.or_none).symm⟩

/-- What is remembered of either kind was collected by the first call that needed it. -/
theorem remembered_fills (a : Artifacts) (history : List FactsCall) :
    (remembered a history).aliasNames =
        (history.findSome? aliasFacts?).map (fun f => f.aliasNames a.tree.root) ∧
      (remembered a history).initializers = (history.findSome? initializerFacts?).map
        fun f => f.initializerWords a.tree.placedRoot := by
  have run (m : Memo) : (history.foldl (leave a) m).aliasNames = m.aliasNames.or
        ((history.findSome? aliasFacts?).map fun f => f.aliasNames a.tree.root) ∧
      (history.foldl (leave a) m).initializers = m.initializers.or
        ((history.findSome? initializerFacts?).map
          fun f => f.initializerWords a.tree.placedRoot) := by
    induction history generalizing m with
    | nil => exact ⟨(Option.or_none).symm, (Option.or_none).symm⟩
    | cons c history ih =>
        obtain ⟨hn, hi⟩ := ih (leave a m c)
        obtain ⟨hn', hi'⟩ := leave_fills a m c
        rw [List.foldl_cons, hn, hi, hn', hi', Option.or_assoc, Option.or_assoc,
          List.findSome?_cons, List.findSome?_cons]
        refine ⟨congrArg _ ?_, congrArg _ ?_⟩
        · cases c.aliasFacts? <;> rfl
        · cases c.initializerFacts? <;> rfl
  exact run {}

/-! ## What is answered -/

theorem aliasAt_remembered (a : Artifacts) (history : List FactsCall) (f : Language)
    (t : PlacedToken) :
    (Query.aliasAt a f t false (remembered a history)).1 =
      .ok (aliasUnder a ((history.findSome? aliasFacts?).getD f) f t) := by
  obtain ⟨hr, -⟩ := run_aliasAt a f t (remembered a history)
  rw [hr, (remembered_fills a history).1, aliasUnder]
  cases history.findSome? aliasFacts? <;> rfl

theorem initializers_remembered (a : Artifacts) (history : List FactsCall) (f : Language)
    {x : Subject} (hx : Query.isOwnRoot x = true) :
    (Query.initializers a f x false (remembered a history)).1 =
      .ok (((history.findSome? initializerFacts?).getD f).initializerWords a.tree.placedRoot) := by
  rw [run_initializers a f _ hx, (remembered_fills a history).2]
  cases history.findSome? initializerFacts? <;> rfl

/-- After any calls, an alias is looked for among the names that the first call for an alias had
collected with its facts, and the words of the tree are those that the first call for them had
collected with its facts: they are the answer of a fresh cache to that call. A caller whose facts
are those of the first call gets the answers of a fresh cache. -/
theorem answered_under_first_facts {l : Language} {s : SourceText} (ht : a.tree = .parse l s)
    (history : List FactsCall) (f : Language) (t : PlacedToken) :
    let m := remembered a history
    let root := Subject.own a.tree.placedRoot
    let aliasFacts := (history.findSome? aliasFacts?).getD f
    let wordFacts := (history.findSome? initializerFacts?).getD f
    (Query.aliasAt a f t false m).1 = .ok (aliasUnder a aliasFacts f t) ∧
    (Query.initializers a f root false m).1 = (Query.initializers a wordFacts root false {}).1 ∧
    (Query.aliasAt a f t false {}).1 = .ok (aliasUnder a f f t) ∧
    (Query.initializers a f root false {}).1 = .ok (f.initializerWords a.tree.placedRoot) ∧
    (aliasFacts = f → (Query.aliasAt a f t false m).1 = (Query.aliasAt a f t false {}).1) ∧
    (wordFacts = f →
      (Query.initializers a f root false m).1 = (Query.initializers a f root false {}).1) := by
  intro m root aliasFacts wordFacts
  have hroot : Query.isOwnRoot root = true := by
    have hi : a.tree.placedRoot.id = 0 := by rw [ht, Tree.id_placedRoot]
    exact beq_iff_eq.2 hi
  have ha : (Query.aliasAt a f t false m).1 = .ok (aliasUnder a aliasFacts f t) :=
    aliasAt_remembered a history f t
  have hw : (Query.initializers a f root false m).1 =
      .ok (wordFacts.initializerWords a.tree.placedRoot) :=
    initializers_remembered a history f hroot
  have ha' : (Query.aliasAt a f t false {}).1 = .ok (aliasUnder a f f t) :=
    aliasAt_remembered a [] f t
  have hw' (g : Language) : (Query.initializers a g root false {}).1 =
      .ok (g.initializerWords a.tree.placedRoot) :=
    initializers_remembered a [] g hroot
  refine ⟨ha, hw.trans (hw' wordFacts).symm, ha', hw' f, fun h => ?_, fun h => ?_⟩
  · rw [ha, ha', h]
  · rw [hw, hw' f, h]

/-- Calls under both facts, where the caller's own came first. -/
theorem answered_under_own_facts :
    let s := SourceText.ofText "using X = Foo; class C { C(X x) : this() { } }".toList 0
    let a := Artifacts.ofTree "a.cs" (.parse .csharp s)
    let root := Subject.own a.tree.placedRoot
    ∃ t ∈ a.tree.tokens, t.token.value = ['X'] ∧ t.parent.kind = .identifierName ∧
      let m := remembered a [aliasAt .csharp t, initializers .csharp root,
        foreignAliasAt .visualBasic t, initializers .visualBasic root]
      a.tree = .parse .csharp s ∧
      (Query.aliasAt a .csharp t false m).1 = (Query.aliasAt a .csharp t false {}).1 ∧
      (Query.initializers a .csharp root false m).1 =
        (Query.initializers a .csharp root false {}).1 := by
  intro s a root
  have h : a.tree.tokens.toList.any (fun t =>
      t.token.value == ['X'] && t.parent.kind == .identifierName) = true := by decide +kernel
  obtain ⟨t, ht, hx⟩ := List.any_eq_true.1 h
  rw [Bool.and_eq_true, beq_iff_eq, beq_iff_eq] at hx
  obtain ⟨-, -, -, -, ha, hw⟩ := answered_under_first_facts (a := a) (l := .csharp) (s := s) rfl
    [aliasAt .csharp t, initializers .csharp root, foreignAliasAt .visualBasic t,
      initializers .visualBasic root] .csharp t
  exact ⟨t, Array.mem_toList_iff.1 ht, hx.1, hx.2, rfl, ha rfl, hw rfl⟩

/-- Calls under other facts come first, and the names and words of a document are not found. -/
theorem other_facts_answered_apart :
    let s := SourceText.ofText "using X = Foo; class C { C(X x) : this() { } }".toList 0
    let a := Artifacts.ofTree "a.cs" (.parse .csharp s)
    let root := Subject.own a.tree.placedRoot
    ∃ t ∈ a.tree.tokens,
      (Query.aliasAt a .csharp t false (remembered a [aliasAt .visualBasic t])).1 ≠
        (Query.aliasAt a .csharp t false {}).1 ∧
      (Query.initializers a .csharp root false
          (remembered a [initializers .visualBasic root])).1 ≠
        (Query.initializers a .csharp root false {}).1 := by
  intro s a root
  have h : a.tree.tokens.toList.any (fun t => (aliasUnder a .visualBasic .csharp t).isNone &&
      (aliasUnder a .csharp .csharp t).isSome) = true := by decide +kernel
  obtain ⟨t, ht, hx⟩ := List.any_eq_true.1 h
  rw [Bool.and_eq_true, Option.isNone_iff_eq_none, Option.isSome_iff_exists] at hx
  obtain ⟨hn, x, hs⟩ := hx
  refine ⟨t, Array.mem_toList_iff.1 ht, fun he => ?_, fun he => ?_⟩
  · have hfirst := aliasAt_remembered a [aliasAt .visualBasic t] .csharp t
    have hfresh := aliasAt_remembered a [] .csharp t
    have hsame : aliasUnder a .visualBasic .csharp t = aliasUnder a .csharp .csharp t :=
      Except.ok.inj (hfirst.symm.trans (he.trans hfresh))
    rw [hn, hs] at hsame
    cases hsame
  · have hfirst :=
      initializers_remembered a [initializers .visualBasic root] .csharp (x := root) rfl
    have hfresh := initializers_remembered a [] .csharp (x := root) rfl
    have hsame : Language.visualBasic.initializerWords a.tree.placedRoot =
        Language.csharp.initializerWords a.tree.placedRoot :=
      Except.ok.inj (hfirst.symm.trans (he.trans hfresh))
    have hlength : (Language.visualBasic.initializerWords a.tree.placedRoot).length ≠
        (Language.csharp.initializerWords a.tree.placedRoot).length := by decide +kernel
    exact hlength (congrArg List.length hsame)

end FactsCall

end Xref
