import Xref.Proofs.Cache.Answer
import Xref.Proofs.Cache.Tokens

/-!
# A cache answers as if it remembered nothing

Everything in a memo was once an answer, and the artifacts that it was answered from never change.
So it is an answer still. `Memo.Truthful` says so of the four tables, and a query that finds such a
memo leaves one, whether it is answered or cancelled half-way (`Query.Yields`). The one table that
needs thought is that of tokens: it is read with the key of a name and was written for another
spelling, which is the same search, since a search looks at the key only.

A query that is not cancelled never fails. One that is cancelled may be answered from the memo all
the same, but then its answer is the one it would have got.
-/

namespace Xref

/-- What is remembered are answers. -/
structure Memo.Truthful (a : Artifacts) (m : Memo) : Prop where
  tokens : ∀ k ts, m.tokens.lookup k = some ts →
    ∀ name, name ≠ [] → a.comparison.key name = k → ts = a.found name
  resolutions : ∀ i r, m.resolutions.lookup i = some r →
    ∀ p ∈ a.tree.nodes, p.id = i → r = a.model.resolve p
  aliasNames : ∀ ns, m.aliasNames = some ns → ns = a.aliasNames
  initializers : ∀ ts, m.initializers = some ts → ts = a.initializers

theorem Memo.lookup_cons_eq_some {κ ι : Type} [BEq κ] [LawfulBEq κ] {k k' : κ} {v w : ι}
    {m : List (κ × ι)} (h : ((k, v) :: m).lookup k' = some w) :
    (k' = k ∧ w = v) ∨ m.lookup k' = some w := by
  rw [List.lookup_cons] at h
  split at h
  · next he => exact .inl ⟨eq_of_beq he, (Option.some.inj h).symm⟩
  · exact .inr h

theorem Memo.truthful_empty (a : Artifacts) : Truthful a {} where
  tokens := fun _ _ h => by cases h
  resolutions := fun _ _ h => by cases h
  aliasNames := fun _ h => by cases h
  initializers := fun _ h => by cases h

namespace Query

variable {α β : Type} {a : Artifacts} {l : Language} {s : SourceText} {cancelled : Bool}

/-- On a truthful memo the query is answered with `v`, unless it is cancelled and says so, and what
it leaves is truthful. -/
def Yields (a : Artifacts) (cancelled : Bool) (q : Query α) (v : α) : Prop :=
  ∀ m : Memo, m.Truthful a → (q m).2.Truthful a ∧
    ((q m).1 = .ok v ∨ (cancelled = true ∧ (q m).1 = .error .cancelled))

/-- Without being cancelled a query is answered, whatever it might say otherwise. -/
theorem Yields.of_live {q : Query α} {v : α} (h : Yields a false q v) : Yields a cancelled q v :=
  fun m hm => (h m hm).imp_right fun h => h.elim .inl fun h => (Bool.false_ne_true h.1).elim

theorem Yields.run_live {q : Query α} {v : α} (h : Yields a false q v) {m : Memo}
    (hm : m.Truthful a) : (q m).1 = .ok v :=
  (h m hm).2.elim id fun h => (Bool.false_ne_true h.1).elim

/-! ## Steps of queries -/

theorem Yields.pure (v : α) : Yields a cancelled (pure v) v :=
  fun _ hm => ⟨hm, .inl rfl⟩

theorem Yields.bind {x : Query α} {f : α → Query β} {v : α} {w : β} (hx : Yields a cancelled x v)
    (hf : Yields a cancelled (f v) w) : Yields a cancelled (x >>= f) w := by
  intro m hm
  obtain ⟨ht, hv⟩ := hx m hm
  rw [run_bind]
  generalize x m = r at ht hv
  obtain ⟨e, m'⟩ := r
  rcases hv with hv | ⟨hc, hv⟩
  · obtain rfl : e = .ok v := hv
    exact hf m' ht
  · obtain rfl : e = .error .cancelled := hv
    exact ⟨ht, .inr ⟨hc, rfl⟩⟩

theorem Yields.ite {p : Prop} [Decidable p] {x y : Query α} {v w : α}
    (hx : p → Yields a cancelled x v) (hy : ¬ p → Yields a cancelled y w) :
    Yields a cancelled (if p then x else y) (if p then v else w) := by
  by_cases hp : p
  · rw [if_pos hp, if_pos hp]
    exact hx hp
  · rw [if_neg hp, if_neg hp]
    exact hy hp

theorem yields_count (f : Counters → Counters) : Yields a cancelled (count f) () :=
  fun _ hm => ⟨⟨hm.tokens, hm.resolutions, hm.aliasNames, hm.initializers⟩, .inl rfl⟩

theorem yields_countCall (f : ModelCalls → ModelCalls) : Yields a cancelled (countCall f) () :=
  fun _ hm => ⟨⟨hm.tokens, hm.resolutions, hm.aliasNames, hm.initializers⟩, .inl rfl⟩

theorem yields_check : Yields a cancelled (check cancelled) () := by
  intro m hm
  cases cancelled with
  | false => exact ⟨hm, .inl rfl⟩
  | true => exact ⟨hm, .inr ⟨rfl, rfl⟩⟩

/-! ## The four tables -/

/-- The names that share a key are searched alike. -/
theorem found_congr (hc : a.comparison = .ofLanguage a.index.language) {name name' : Text}
    (h : a.comparison.key name = a.comparison.key name') : a.found name = a.found name' := by
  have hs : Strategy.select a.index name = Strategy.select a.index name' := by
    refine Strategy.select_congr ?_
    rw [Language.normalize_eq_key, Language.normalize_eq_key, ← hc, h]
  simp only [Artifacts.found, hs, Strategy.found_congr _ _ h, Comparison.eq_nil_iff_of_key_eq h]

theorem yields_tokensOf (hc : a.comparison = .ofLanguage a.index.language) (name : Text) :
    Yields a cancelled (tokensOf a name cancelled) (a.found name) := by
  unfold tokensOf Artifacts.found
  refine Yields.ite (fun _ => .pure []) fun hn => ?_
  intro m hm
  have hf : a.found name = (Strategy.select a.index name).found a.tree a.comparison name :=
    if_neg hn
  simp only [run_bind, run_get]
  cases ht : m.tokens.lookup (a.comparison.key name) with
  | some ts =>
      obtain rfl : ts = a.found name := hm.tokens _ _ ht name hn rfl
      exact ⟨⟨hm.tokens, hm.resolutions, hm.aliasNames, hm.initializers⟩, .inl (congrArg _ hf)⟩
  | none =>
      simp only [run_bind, run_count, run_ofExcept]
      rcases (Strategy.select a.index name).run_eq a.tree a.comparison name cancelled with
        hr | ⟨rfl, hr⟩
      · rw [hr, ← hf]
        refine ⟨⟨fun k ts h => ?_, hm.resolutions, hm.aliasNames, hm.initializers⟩, .inl rfl⟩
        intro name' hn' hk
        rcases Memo.lookup_cons_eq_some h with ⟨rfl, rfl⟩ | h
        · exact found_congr hc hk.symm
        · exact hm.tokens k ts h name' hn' hk
      · rw [hr]
        exact ⟨⟨hm.tokens, hm.resolutions, hm.aliasNames, hm.initializers⟩, .inr ⟨rfl, rfl⟩⟩

theorem yields_resolve (ht : a.tree = .parse l s) {x : Subject}
    (hx : ∀ p, x = .own p → p ∈ a.tree.nodes) :
    Yields a cancelled (resolve a x) (a.resolution x) := by
  cases x with
  | foreign p => exact (yields_countCall _).bind (.pure _)
  | own p =>
      have hp := hx p rfl
      intro m hm
      unfold resolve Artifacts.resolution
      simp only [run_bind, run_get]
      cases hl : m.resolutions.lookup p.id with
      | some r =>
          obtain rfl : r = a.model.resolve p := hm.resolutions _ _ hl p hp rfl
          exact ⟨⟨hm.tokens, hm.resolutions, hm.aliasNames, hm.initializers⟩, .inl rfl⟩
      | none =>
          refine ⟨⟨hm.tokens, fun i r h => ?_, hm.aliasNames, hm.initializers⟩, .inl rfl⟩
          intro q hq hi
          rcases Memo.lookup_cons_eq_some h with ⟨rfl, rfl⟩ | h
          · rw [ht] at hp hq
            rw [Tree.node_inj hq hp hi]
          · exact hm.resolutions i r h q hq hi

theorem yields_aliasNames : Yields a cancelled (aliasNames a a.facts cancelled) a.aliasNames := by
  intro m hm
  unfold aliasNames
  simp only [run_bind, run_get]
  cases hn : m.aliasNames with
  | some ns =>
      obtain rfl := hm.aliasNames ns hn
      exact ⟨hm, .inl rfl⟩
  | none =>
      refine yields_check.bind (v := ()) ?_ m hm
      intro m hm
      exact ⟨⟨hm.tokens, hm.resolutions, fun ns h => (Option.some.inj h).symm, hm.initializers⟩,
        .inl rfl⟩

theorem yields_initializers (ht : a.tree = .parse l s) {x : Subject}
    (hx : ∀ p, x = .own p → p ∈ a.tree.nodes) :
    Yields a cancelled (initializers a a.facts x cancelled)
      (a.facts.initializerWords (nodeOf x)) := by
  unfold initializers
  by_cases hr : isOwnRoot x = true
  · have hx' : nodeOf x = a.tree.placedRoot := by
      cases x with
      | foreign p => cases hr
      | own p =>
          have hp := hx p rfl
          have hi : p.id = 0 := eq_of_beq hr
          rw [ht] at hp ⊢
          exact Tree.node_inj hp (Tree.placedRoot_mem_nodes _)
            (hi.trans (Tree.id_placedRoot l s).symm)
    rw [if_pos hr, hx']
    intro m hm
    simp only [run_bind, run_get]
    cases hn : m.initializers with
    | some ts =>
        obtain rfl := hm.initializers ts hn
        exact ⟨hm, .inl rfl⟩
    | none =>
        refine yields_check.bind (v := ()) ?_ m hm
        intro m hm
        exact ⟨⟨hm.tokens, hm.resolutions, hm.aliasNames, fun ts h => (Option.some.inj h).symm⟩,
          .inl rfl⟩
  · rw [if_neg hr]
    exact yields_check.bind (.pure _)

/-! ## Questions put together from these -/

theorem yields_hasAliasName (t : PlacedToken) :
    Yields a cancelled (hasAliasName a a.facts t cancelled) (a.hasAliasName t) := by
  refine yields_aliasNames.bind ?_
  by_cases h : a.hasAliasName t = true
  · have h' := h
    rw [Artifacts.hasAliasName] at h'
    rw [if_pos h', h]
    exact (yields_count _).bind ((yields_countCall _).bind (.pure true))
  · have h' := h
    rw [Artifacts.hasAliasName] at h'
    rw [if_neg h', Bool.eq_false_iff.2 h]
    exact .pure false

theorem yields_aliasAt (t : PlacedToken) :
    Yields a cancelled (aliasAt a a.facts t cancelled) (a.aliasAt t) :=
  (yields_hasAliasName t).bind (.ite (fun _ => .pure _) fun _ => .pure _)

theorem yields_foreignAliasAt (t : PlacedToken) :
    Yields a cancelled (foreignAliasAt a a.facts t cancelled) none :=
  (yields_hasAliasName t).bind (.pure _)

theorem yields_declared (p : PlacedNode) :
    Yields a cancelled (declared a p) (a.model.declared? p) :=
  (yields_countCall _).bind (.pure _)

end Query

/-! ## Operations and plans -/

/-- An operation is about the cache's own: its facts are those of the cache's language, and what is
handed over as a node of its tree is one. -/
def Operation.IsOwn (a : Artifacts) : Operation → Prop
  | resolution x => ∀ p, x = .own p → p ∈ a.tree.nodes
  | initializers f x => f = a.facts ∧ ∀ p, x = .own p → p ∈ a.tree.nodes
  | aliasAt f _ | foreignAliasAt f _ => f = a.facts
  | _ => True

variable {α β : Type} {a : Artifacts} {l : Language} {s : SourceText} {cancelled : Bool}

theorem Operation.yields_ask (ht : a.tree = .parse l s)
    (hc : a.comparison = .ofLanguage a.index.language) {o : Operation} (ho : o.IsOwn a) :
    Query.Yields a cancelled (o.ask a cancelled) (a.answer o) := by
  cases o with
  | tokens name => exact Query.yields_tokensOf hc name
  | resolution x => exact Query.yields_resolve ht ho
  | declared p => exact Query.yields_declared p
  | aliasAt f t =>
      obtain rfl : f = a.facts := ho
      exact Query.yields_aliasAt t
  | foreignAliasAt f t =>
      obtain rfl : f = a.facts := ho
      exact Query.yields_foreignAliasAt t
  | initializers f x =>
      obtain ⟨rfl, hx⟩ := ho
      exact Query.yields_initializers ht hx

namespace Plan

/-- With the answers that it gets, a plan performs operations about the cache's own only. -/
def IsOwn (a : Artifacts) : Plan α → Prop
  | done _ => True
  | checked next => (next ()).IsOwn a
  | perform o next => o.IsOwn a ∧ (next (a.answer o)).IsOwn a

/-- A plan about the cache's own gets the answers that it gets without a memory. -/
theorem yields_run (ht : a.tree = .parse l s) (hc : a.comparison = .ofLanguage a.index.language)
    {x : Plan α} (hx : x.IsOwn a) :
    Query.Yields a cancelled (x.run a cancelled) (x.value a.answer) := by
  induction x with
  | done v => exact .pure v
  | checked next ih => exact Query.yields_check.bind (ih () hx)
  | perform o next ih => exact (Operation.yields_ask ht hc hx.1).bind (ih _ hx.2)

@[simp] theorem isOwn_pure (v : α) : (pure v : Plan α).IsOwn a := trivial

@[simp] theorem isOwn_check : check.IsOwn a := trivial

@[simp] theorem isOwn_bind {x : Plan α} {f : α → Plan β} :
    (x >>= f).IsOwn a ↔ x.IsOwn a ∧ (f (x.value a.answer)).IsOwn a := by
  show (x.bind f).IsOwn a ↔ _
  induction x with
  | done v => exact (iff_of_eq (true_and _)).symm
  | checked next ih => exact ih ()
  | perform o next ih => exact (and_congr_right fun _ => ih _).trans and_assoc.symm

@[simp] theorem isOwn_ofOperation {o : Operation} : (ofOperation o).IsOwn a ↔ o.IsOwn a :=
  and_iff_left trivial

theorem IsOwn.ite {p : Prop} [Decidable p] {x y : Plan α} (hx : x.IsOwn a) (hy : y.IsOwn a) :
    (if p then x else y).IsOwn a := by
  split
  · exact hx
  · exact hy

theorem isOwn_collect {f : α → Plan (List β)} {xs : List α} (h : ∀ x ∈ xs, (f x).IsOwn a) :
    (collect xs f).IsOwn a := by
  have onto (found : List β) : (collectOnto f found xs).IsOwn a := by
    induction xs generalizing found with
    | nil => exact isOwn_pure _
    | cons x xs ih =>
        have hrest := ih fun y hy => h y (List.mem_cons_of_mem _ hy)
        exact isOwn_bind.2 ⟨h x List.mem_cons_self, hrest _⟩
  exact onto []

/-! ## Symbols at an offset -/

theorem isOwn_resolve {p : PlacedNode} (hp : p ∈ a.tree.nodes) : (resolve (.own p)).IsOwn a :=
  isOwn_ofOperation.2 fun _ h => Subject.own.inj h ▸ hp

theorem isOwn_declared (p : PlacedNode) : (declared p).IsOwn a :=
  isOwn_ofOperation.2 trivial

theorem isOwn_firstSymbol {p : PlacedNode} (hp : p ∈ a.tree.nodes) : (firstSymbol p).IsOwn a :=
  isOwn_bind.2 ⟨isOwn_resolve hp, isOwn_pure _⟩

theorem isOwn_declaredBy (t : PlacedToken) : (declaredBy t).IsOwn a := by
  unfold declaredBy
  split
  · exact isOwn_pure none
  · exact isOwn_bind.2 ⟨isOwn_declared _, isOwn_pure _⟩

theorem isOwn_symbolAt (offset : Nat) : (symbolAt a offset).IsOwn a := by
  unfold symbolAt
  split
  · exact isOwn_pure none
  · next t hf =>
      have hp := Tree.parent_mem_nodes (Tree.mem_tokens_of_findToken? hf)
      have hfirst := isOwn_firstSymbol hp
      refine .ite (isOwn_pure _) (.ite hfirst (isOwn_bind.2 ⟨isOwn_declaredBy t, ?_⟩))
      split
      · exact isOwn_pure _
      · exact .ite hfirst (isOwn_pure _)

/-! ## References -/

theorem isOwn_standsFor {p : PlacedNode} (hp : p ∈ a.tree.nodes) (x : Symbol) :
    (standsFor p x).IsOwn a :=
  isOwn_bind.2 ⟨isOwn_resolve hp, isOwn_pure _⟩

theorem isOwn_classify (x : Symbol) {t : PlacedToken} (hp : t.parent ∈ a.tree.nodes) :
    (classify a x t).IsOwn a := by
  refine .ite (isOwn_pure _) (.ite (isOwn_pure _) (isOwn_bind.2 ⟨isOwn_ofOperation.2 rfl, ?_⟩))
  refine .ite (isOwn_pure _) (isOwn_bind.2 ⟨isOwn_standsFor hp x, ?_⟩)
  exact .ite (isOwn_pure _) (isOwn_pure _)

theorem isOwn_classifyInitializer (x : Symbol) {t : PlacedToken} (hp : t.parent ∈ a.tree.nodes) :
    (classifyInitializer x t).IsOwn a :=
  isOwn_bind.2 ⟨isOwn_standsFor hp x, isOwn_pure _⟩

theorem isOwn_locate {how : PlacedToken → Plan (Option ReferenceKind)} {ts : List PlacedToken}
    (h : ∀ t ∈ ts, (how t).IsOwn a) : (locate a how ts).IsOwn a :=
  isOwn_collect fun t ht =>
    isOwn_bind.2 ⟨isOwn_check, isOwn_bind.2 ⟨h t ht, isOwn_pure _⟩⟩

theorem isOwn_aliasFor (x : Symbol) (p : PlacedNode) : (aliasFor a x p).IsOwn a := by
  refine isOwn_bind.2 ⟨isOwn_declared p, ?_⟩
  split
  · exact .ite (isOwn_pure _) (isOwn_pure _)
  · exact isOwn_pure _

theorem isOwn_namesOf (x : Symbol) : (namesOf a x).IsOwn a := by
  refine .ite (isOwn_bind.2 ⟨isOwn_collect fun p _ => ?_, isOwn_pure _⟩) (isOwn_pure _)
  exact isOwn_bind.2 ⟨isOwn_check, .ite (isOwn_aliasFor x p) (isOwn_pure _)⟩

end Plan

theorem Artifacts.mem_tokens_of_mem_found {name : Text} {t : PlacedToken} (h : t ∈ a.found name) :
    t ∈ a.tree.tokens := by
  unfold found at h
  split at h
  · cases h
  · exact Strategy.mem_of_mem_found _ _ _ _ h

namespace Plan

theorem isOwn_locateNames (x : Symbol) (names : List Text) : (locateNames a x names).IsOwn a := by
  refine isOwn_collect fun n _ => isOwn_bind.2 ⟨isOwn_ofOperation.2 trivial, ?_⟩
  refine isOwn_locate fun t h => isOwn_classify x (Tree.parent_mem_nodes ?_)
  exact Artifacts.mem_tokens_of_mem_found h

theorem isOwn_locateInitializers (x : Symbol) : (locateInitializers a x).IsOwn a := by
  have hr : (initializers a.facts (.own a.tree.placedRoot)).IsOwn a :=
    isOwn_ofOperation.2 ⟨rfl, fun p h => Subject.own.inj h ▸ Tree.placedRoot_mem_nodes _⟩
  refine .ite (isOwn_bind.2 ⟨hr, isOwn_locate fun t h => ?_⟩) (isOwn_pure _)
  refine isOwn_classifyInitializer x (Tree.parent_mem_nodes (Tree.mem_tokens_iff.2 ?_))
  exact Node.mem_placedTokens_of_mem_initializerWords h

theorem isOwn_references (x : Symbol) : (references a x).IsOwn a := by
  refine isOwn_bind.2 ⟨isOwn_namesOf x, isOwn_bind.2 ⟨isOwn_locateNames x _, ?_⟩⟩
  exact isOwn_bind.2 ⟨isOwn_locateInitializers x, isOwn_pure _⟩

end Plan

namespace Query

theorem yields_symbolAt (ht : a.tree = .parse l s)
    (hc : a.comparison = .ofLanguage a.index.language) (offset : Nat) :
    Yields a cancelled (symbolAt a offset) (a.symbolAt offset) :=
  Yields.of_live (Plan.yields_run ht hc (Plan.isOwn_symbolAt offset))

theorem yields_references (ht : a.tree = .parse l s)
    (hc : a.comparison = .ofLanguage a.index.language) (x : Symbol) :
    Yields a cancelled (references a x cancelled) (a.references x) :=
  Plan.yields_run ht hc (Plan.isOwn_references x)

end Query

end Xref
