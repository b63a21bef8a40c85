import Xref.Proofs.Cache.Transparency
import Xref.Proofs.References.Order
import Xref.Proofs.Symbols.Declared
import Xref.Proofs.Symbols.Resolved

/-!
# References are found exactly

`Refers` says how a token refers to a symbol, by what the model tells of the token's node and
without any search. The references that are found are the tokens that refer
(`Query.references_exact`).

Nothing else is found, since every candidate is classified by the same questions to the model. And
nothing is missed: a name that stands for a symbol is spelled like the symbol or like one of its
aliases, and the search for each of these finds every token spelled like it. Two shortcuts must not
lose anything. Tokens that have no alias's name are never handed to the model, and an alias spelled
like its own target is not searched for separately. And sorting drops locations that start together,
so no two tokens may refer from one place, nor one token in two ways.
-/

namespace Xref

/-- The artifacts are those of a text. -/
structure Artifacts.IsOf (a : Artifacts) (l : Language) (s : SourceText) : Prop where
  source : a.source = s
  tree : a.tree = .parse l s
  model : ∃ nullable, a.model = .build a.tree nullable
  index : ∃ f rate, a.index = .build f a.tree rate
  languageName : a.languageName = l.name

/-- How a token refers to a symbol. -/
def Refers (a : Artifacts) (x : Symbol) (t : PlacedToken) : ReferenceKind → Prop
  | .definition => t.token.span = x.declaration
  | .reference =>
    x.kind.isAlias = false ∧ t.token.span ≠ x.declaration ∧ t.parent.kind = .identifierName ∧
      x ∈ (a.model.resolve t.parent).all ∧ a.model.alias? t.parent = none
  | .aliasReference =>
    t.parent.kind = .identifierName ∧
      ((x.kind.isAlias = true ∧ a.model.alias? t.parent = some x) ∨
        (x.kind.isAlias = false ∧ t.token.span ≠ x.declaration ∧
          x ∈ (a.model.resolve t.parent).all ∧ (a.model.alias? t.parent).isSome = true))
  | .constructorInitializer =>
    x.kind.isConstructor = true ∧ t.parent.kind = .constructorInitializer ∧
      t.token.isMissing = false ∧ a.tree.language.isCallWord t.token.kind = true ∧
        x ∈ (a.model.resolve t.parent).all

namespace Artifacts

variable {a : Artifacts} {l : Language} {s : SourceText} {x y : Symbol} {t u : PlacedToken}
  {k k' : ReferenceKind} {loc : Location}

namespace IsOf

theorem facts (ha : a.IsOf l s) : a.facts = l := by
  rw [Artifacts.facts, ha.tree]
  rfl

theorem comparison (ha : a.IsOf l s) : a.comparison = .ofLanguage l :=
  Query.comparison_of_languageName ha.languageName

/-- The index is of the language whose names are compared. -/
theorem comparison_index (ha : a.IsOf l s) : a.comparison = .ofLanguage a.index.language := by
  obtain ⟨f, rate, hi⟩ := ha.index
  rw [ha.comparison, hi]
  show _ = Comparison.ofLanguage a.tree.language
  rw [ha.tree]
  rfl

/-- The model compares names as the cache does. -/
theorem key (ha : a.IsOf l s) (name : Text) : a.model.key name = a.comparison.key name := by
  obtain ⟨b, hm⟩ := ha.model
  rw [Model.key, hm, ha.comparison, ← Language.normalize_eq_key]
  show a.tree.language.normalize name = _
  rw [ha.tree]
  rfl

theorem children_parent (ha : a.IsOf l s) (ht : t ∈ a.tree.tokens)
    (hp : t.parent.kind = .identifierName) :
    t.parent.node.children = .token t.token .nil ∧ t.token.kind = .identifier ∧
      t.token.isMissing = false := by
  rw [ha.tree] at ht
  exact Tree.children_parent ht hp

/-! ## Symbols -/

theorem exists_draft (ha : a.IsOf l s) (hx : x ∈ a.model.symbols) :
    ∃ i d, (Draft.all (.parse l s))[i]? = some d ∧ x = (Draft.number i d).symbol := by
  obtain ⟨b, hm⟩ := ha.model
  rw [hm, ha.tree] at hx
  exact Model.mem_symbols_build.1 hx

theorem eq_of_id_eq (ha : a.IsOf l s) (hx : x ∈ a.model.symbols) (hy : y ∈ a.model.symbols)
    (h : x.id = y.id) : x = y := by
  obtain ⟨b, hm⟩ := ha.model
  rw [hm] at hx hy
  exact Model.eq_of_id_eq hx hy h

/-- Symbols are compared by number, which makes no difference. -/
theorem standsFor_iff (ha : a.IsOf l s) (hx : x ∈ a.model.symbols) (p : PlacedNode) :
    a.standsFor p x = true ↔ x ∈ (a.model.resolve p).all := by
  rw [standsFor, Plan.standsFor, Plan.value_bind, Plan.value_resolve, Plan.value_pure,
    List.any_eq_true, resolution]
  constructor
  · rintro ⟨c, hc, he⟩
    rwa [← ha.eq_of_id_eq (Model.mem_symbols_of_mem_resolve hc) hx (eq_of_beq he)]
  · exact fun h => ⟨x, h, beq_self_eq_true _⟩

/-- The name that declares a symbol is the only token at its place, and no reference. -/
theorem exists_declaration (ha : a.IsOf l s) (hx : x ∈ a.model.symbols) (hn : x.name ≠ []) :
    ∃ d ∈ a.tree.tokens, d.token.span = x.declaration ∧ d.token.text ≠ [] ∧
      d.parent.kind ≠ .identifierName ∧ d.parent.kind ≠ .constructorInitializer ∧
      ∀ t ∈ a.tree.tokens, t.token.span = x.declaration → t = d := by
  obtain ⟨i, d, hd, rfl⟩ := ha.exists_draft hx
  obtain ⟨y, hy, hyn, hk, hk', -⟩ := Draft.exists_token (List.mem_of_getElem? hd)
  have ht : y.token.text ≠ [] := by
    rcases Tree.stands_of_mem hy with ⟨-, k, hl⟩ | ⟨-, pre, -, hs⟩
    · have hv : d.name.value = [] := by rw [← hyn, Token.value, hl]; rfl
      exact absurd hv hn
    · intro h
      have hv : y.token.value = [] := (hs.empty h).1
      rw [hyn] at hv
      exact hn hv
  have hs : y.token.span = d.name.span := by rw [hyn]
  refine ⟨y, ha.tree ▸ hy, hs, ht, hk, hk', fun u hu hus => ?_⟩
  rw [ha.tree] at hu
  have hus : u.token.span = y.token.span := hus.trans hs.symm
  exact Tree.eq_of_start_eq hu hy (Token.text_ne_nil_of_span_eq hus ht) ht (congrArg _ hus)

/-! ## Aliases -/

/-- An alias is declared by an import, in a node around its name. -/
theorem exists_alias (ha : a.IsOf l s) (hx : x ∈ a.model.symbols) (hi : x.kind.isAlias = true) :
    ∃ (d : Draft) (e : Node), d.OfAlias e ∧ d.node ∈ (Tree.parse l s).nodes ∧
      x.name = d.name.value ∧ a.model.declared? d.node = some x := by
  obtain ⟨b, hm⟩ := ha.model
  obtain ⟨i, d, hd, rfl⟩ := ha.exists_draft hx
  obtain ⟨hp, ⟨e, he⟩ | ho⟩ := Draft.of_mem_all (List.mem_of_getElem? hd)
  · refine ⟨d, e, he, hp, rfl, ?_⟩
    rw [hm, ha.tree]
    exact Model.declared?_node hd
  · rw [show (Draft.number i d).symbol.kind.isAlias = _ from ho.isAlias] at hi
    cases hi

theorem mem_aliasNames (ha : a.IsOf l s) (hx : x ∈ a.model.symbols) (hi : x.kind.isAlias = true) :
    a.comparison.key x.name ∈ a.aliasNames := by
  obtain ⟨d, e, he, hp, hxn, -⟩ := ha.exists_alias hx hi
  obtain ⟨hq, -, hk, -⟩ := he.token hp
  have hqk : (d.node.child e).kind = .nameEquals := he.kind
  have hmem : e ∈ (Tree.parse l s).root.descendants :=
    Tree.node_mem_descendants hq (by rw [hqk]; exact nofun)
  have hid : d.name.isIdentifier = true := by
    rw [Token.isIdentifier, hk, he.present]
    rfl
  rw [aliasNames, ha.facts, ha.comparison, ha.tree, hxn, Language.aliasNames, Text.mem_distinct]
  refine List.mem_filterMap.2 ⟨d.name, List.mem_filterMap.2 ⟨e, ?_, he.name⟩, if_pos hid⟩
  exact List.mem_filter.2 ⟨hmem, beq_iff_eq.2 he.kind⟩

/-- Asking the model about the names of aliases only misses no alias. -/
theorem aliasAt_eq (ha : a.IsOf l s) (ht : t ∈ a.tree.tokens)
    (hk : t.parent.kind = .identifierName) : a.aliasAt t = a.model.alias? t.parent := by
  obtain ⟨hc, hi, hm⟩ := ha.children_parent ht hk
  cases hs : a.model.alias? t.parent with
  | none =>
      rw [aliasAt, hs]
      exact ite_self _
  | some y =>
      obtain ⟨hy, hya, hyk⟩ := Model.spelled_of_alias? hc hs
      have hmem := ha.mem_aliasNames hy hya
      rw [ha.key, ha.key] at hyk
      have hh : a.hasAliasName t = true := by
        rw [hasAliasName, Token.isIdentifier, hi, hm, ha.facts, ← ha.comparison, ← hyk,
          List.contains_iff_mem.2 hmem]
        rfl
      rw [aliasAt, if_pos hh, hs]

/-! ## Tokens found -/

theorem mem_found (ha : a.IsOf l s) (hk : (Comparison.ofLanguage l).KeepsLength s.chars)
    {name : Text} (hn : name ≠ []) :
    t ∈ a.found name ↔ t ∈ a.tree.tokens ∧ t.token.matches a.comparison name = true := by
  obtain ⟨f, rate, hi⟩ := ha.index
  have hr := Strategy.run_select_of_keepsLength f rate hn hk
  simp only [← ha.tree, ← hi, ← ha.comparison] at hr
  have hf := Except.ok.inj ((Strategy.run_false _ _ _ _).symm.trans hr)
  rw [found, if_neg hn, hf, List.mem_filter, Array.mem_toList_iff]

theorem mem_found_of_key_eq (ha : a.IsOf l s)
    (hk : (Comparison.ofLanguage l).KeepsLength s.chars) {name : Text} (hn : name ≠ [])
    (ht : t ∈ a.tree.tokens) (hp : t.parent.kind = .identifierName)
    (he : a.comparison.key name = a.comparison.key t.token.value) : t ∈ a.found name := by
  obtain ⟨-, hi, hm⟩ := ha.children_parent ht hp
  exact (ha.mem_found hk hn).2 ⟨ht, Tree.matches_iff.2 ⟨hi, hm, he.symm⟩⟩

theorem mem_namesOf_self (x : Symbol) : x.name ∈ a.namesOf x := by
  rw [namesOf, Plan.namesOf, Plan.value_ite]
  split
  · rw [Plan.value_bind]
    exact List.mem_cons_self
  · exact List.mem_cons_self

/-- A name that stands for a symbol is found by one of the names searched for. -/
theorem exists_name (ha : a.IsOf l s) (hk : (Comparison.ofLanguage l).KeepsLength s.chars)
    (hn : x.name ≠ []) (ht : t ∈ a.tree.tokens) (hp : t.parent.kind = .identifierName)
    (h : x ∈ (a.model.resolve t.parent).all) : ∃ n ∈ a.namesOf x, t ∈ a.found n := by
  obtain ⟨hc, -, -⟩ := ha.children_parent ht hp
  have hself := mem_namesOf_self (a := a) x
  rcases Model.spelled_of_mem_resolve hp hc h with hs | ⟨y, hy, target, hyk, hyt, hxk, hxt⟩
  · rw [ha.key, ha.key] at hs
    exact ⟨x.name, hself, ha.mem_found_of_key_eq hk hn ht hp hs⟩
  · rw [ha.key, ha.key] at hyt hxt
    by_cases he : a.comparison.equal y.name x.name = true
    · -- the alias is spelled like its target, so the search for the target finds it
      have hs := (Comparison.equal_iff_key_eq.1 he).symm.trans hyt
      exact ⟨x.name, hself, ha.mem_found_of_key_eq hk hn ht hp hs⟩
    · obtain ⟨d, e, hd, hdp, hdn, hdy⟩ := ha.exists_alias hy (by rw [hyk]; rfl)
      have hyn : y.name ≠ [] := by
        rw [hdn]
        exact (hd.token hdp).2.2.2
      have hmem : d.node ∈ a.tree.placedRoot.descendants := by
        rw [ha.tree]
        exact Tree.mem_descendants hdp (by rw [hd.node_kind]; exact nofun)
      have hfor : y.name ∈ a.aliasFor x d.node := by
        obtain ⟨id, name, kind, decl, scope⟩ := y
        obtain rfl : kind = .aliasOf target := hyk
        rw [aliasFor, Plan.aliasFor, Plan.value_bind, Plan.value_declared, hdy]
        dsimp only
        rw [if_pos]
        · exact List.mem_cons_self
        · rw [Comparison.equal_iff_key_eq.2 hxt.symm, Bool.eq_false_iff.2 he]
          rfl
      refine ⟨y.name, ?_, ha.mem_found_of_key_eq hk hyn ht hp hyt⟩
      rw [namesOf, Plan.namesOf, if_pos hxk, Plan.value_bind, Plan.aliasesFor, Plan.value_collect]
      refine List.mem_cons_of_mem _ (List.mem_flatMap.2 ⟨d.node, hmem, ?_⟩)
      rw [Plan.value_bind, if_pos hd.node_kind]
      exact hfor

theorem mem_found_of_alias? (ha : a.IsOf l s)
    (hk : (Comparison.ofLanguage l).KeepsLength s.chars) (hn : x.name ≠ [])
    (ht : t ∈ a.tree.tokens) (hp : t.parent.kind = .identifierName)
    (h : a.model.alias? t.parent = some x) : t ∈ a.found x.name := by
  obtain ⟨hc, -, -⟩ := ha.children_parent ht hp
  obtain ⟨-, -, hs⟩ := Model.spelled_of_alias? hc h
  rw [ha.key, ha.key] at hs
  exact ha.mem_found_of_key_eq hk hn ht hp hs

/-! ## Classifying -/

theorem kind_of_declaration (ha : a.IsOf l s) (hx : x ∈ a.model.symbols) (hn : x.name ≠ [])
    (ht : t ∈ a.tree.tokens) (hd : t.token.span = x.declaration) :
    t.parent.kind ≠ .identifierName ∧ t.parent.kind ≠ .constructorInitializer := by
  obtain ⟨d, -, -, -, hk, hk', hu⟩ := ha.exists_declaration hx hn
  obtain rfl := hu t ht hd
  exact ⟨hk, hk'⟩

theorem any_aliasAt (ha : a.IsOf l s) (hx : x ∈ a.model.symbols) (ht : t ∈ a.tree.tokens)
    (hp : t.parent.kind = .identifierName) :
    ((a.aliasAt t).any fun u => u.id == x.id) = true ↔ a.model.alias? t.parent = some x := by
  rw [ha.aliasAt_eq ht hp]
  cases hs : a.model.alias? t.parent with
  | none => exact ⟨nofun, nofun⟩
  | some y =>
      obtain ⟨hy, -, -⟩ := Model.spelled_of_alias? (ha.children_parent ht hp).1 hs
      rw [Option.any_some, beq_iff_eq, Option.some.injEq]
      exact ⟨ha.eq_of_id_eq hy hx, fun h => by rw [h]⟩

/-- At the declaration nothing is asked: the token defines the symbol and refers in no other way. -/
theorem classify_declaration (ha : a.IsOf l s) (hx : x ∈ a.model.symbols) (hn : x.name ≠ [])
    (ht : t ∈ a.tree.tokens) (hd : t.token.span = x.declaration) :
    a.classify x t = some k ↔ Refers a x t k ∧ k ≠ .constructorInitializer := by
  have hk := (ha.kind_of_declaration hx hn ht hd).1
  rw [classify, Plan.classify, if_pos (beq_iff_eq.2 hd), Plan.value_pure, Option.some.injEq]
  constructor
  · rintro rfl
    exact ⟨hd, by decide⟩
  · rintro ⟨h, hc⟩
    cases k with
    | definition => rfl
    | reference => exact absurd hd h.2.1
    | aliasReference => exact absurd h.1 hk
    | constructorInitializer => exact absurd rfl hc

theorem classify_unnamed (hd : t.token.span ≠ x.declaration)
    (hp : t.parent.kind ≠ .identifierName) :
    a.classify x t = some k ↔ Refers a x t k ∧ k ≠ .constructorInitializer := by
  rw [classify, Plan.classify, if_neg (mt beq_iff_eq.1 hd), if_pos (bne_iff_ne.2 hp)]
  constructor
  · intro h
    cases h
  · rintro ⟨h, hc⟩
    cases k with
    | definition => exact absurd h hd
    | reference => exact absurd h.2.2.1 hp
    | aliasReference => exact absurd h.1 hp
    | constructorInitializer => exact absurd rfl hc

/-- A name refers to an alias if it names the alias. -/
theorem classify_alias (ha : a.IsOf l s) (hx : x ∈ a.model.symbols) (ht : t ∈ a.tree.tokens)
    (hd : t.token.span ≠ x.declaration) (hp : t.parent.kind = .identifierName)
    (hal : x.kind.isAlias = true) :
    a.classify x t = some k ↔ Refers a x t k ∧ k ≠ .constructorInitializer := by
  rw [classify, Plan.classify, if_neg (mt beq_iff_eq.1 hd), hp, bne_self_eq_false,
    if_neg Bool.false_ne_true, Plan.value_bind, if_pos hal, Plan.value_pure, Plan.value_aliasAt]
  have hany := ha.any_aliasAt hx ht hp
  constructor
  · intro h
    split at h
    · next hu =>
        obtain rfl := Option.some.inj h
        exact ⟨⟨hp, .inl ⟨hal, hany.1 hu⟩⟩, by decide⟩
    · cases h
  · rintro ⟨h, hc⟩
    cases k with
    | definition => exact absurd h hd
    | reference => exact Bool.noConfusion (hal.symm.trans h.1)
    | aliasReference =>
        rcases h.2 with ⟨-, h⟩ | ⟨h, -⟩
        · rw [if_pos (hany.2 h)]
        · exact Bool.noConfusion (hal.symm.trans h)
    | constructorInitializer => exact absurd rfl hc

/-- A name refers to another symbol if it stands for the symbol, by an alias or directly. -/
theorem classify_other (ha : a.IsOf l s) (hx : x ∈ a.model.symbols) (ht : t ∈ a.tree.tokens)
    (hd : t.token.span ≠ x.declaration) (hp : t.parent.kind = .identifierName)
    (hal : x.kind.isAlias = false) :
    a.classify x t = some k ↔ Refers a x t k ∧ k ≠ .constructorInitializer := by
  rw [classify, Plan.classify, if_neg (mt beq_iff_eq.1 hd), hp, bne_self_eq_false,
    if_neg Bool.false_ne_true, Plan.value_bind, if_neg (Bool.eq_false_iff.1 hal), Plan.value_bind,
    Plan.value_ite, Plan.value_aliasAt, ha.aliasAt_eq ht hp, ← standsFor]
  have hst := ha.standsFor_iff hx t.parent
  constructor
  · intro h
    split at h
    · next hu =>
        obtain rfl := Option.some.inj h
        cases hs : a.model.alias? t.parent with
        | none => exact ⟨⟨hal, hd, hp, hst.1 hu, hs⟩, by decide⟩
        | some y => exact ⟨⟨hp, .inr ⟨hal, hd, hst.1 hu, by rw [hs]; rfl⟩⟩, fun h => by cases h⟩
    · cases h
  · rintro ⟨h, hc⟩
    cases k with
    | definition => exact absurd h hd
    | reference => rw [if_pos (hst.2 h.2.2.2.1), h.2.2.2.2]; rfl
    | aliasReference =>
        rcases h.2 with ⟨h, -⟩ | ⟨-, -, h, hs⟩
        · exact Bool.noConfusion (hal.symm.trans h)
        · rw [if_pos (hst.2 h), hs]
          rfl
    | constructorInitializer => exact absurd rfl hc

/-- A token that does not declare the symbol is classified by how it refers. -/
theorem classify_elsewhere (ha : a.IsOf l s) (hx : x ∈ a.model.symbols) (ht : t ∈ a.tree.tokens)
    (hd : t.token.span ≠ x.declaration) :
    a.classify x t = some k ↔ Refers a x t k ∧ k ≠ .constructorInitializer := by
  by_cases hp : t.parent.kind = .identifierName
  · cases hal : x.kind.isAlias with
    | true => exact ha.classify_alias hx ht hd hp hal
    | false => exact ha.classify_other hx ht hd hp hal
  · exact classify_unnamed hd hp

/-- A candidate is classified by how it refers, initializers apart. -/
theorem classify_eq_some (ha : a.IsOf l s) (hx : x ∈ a.model.symbols) (hn : x.name ≠ [])
    (ht : t ∈ a.tree.tokens) :
    a.classify x t = some k ↔ Refers a x t k ∧ k ≠ .constructorInitializer := by
  by_cases hd : t.token.span = x.declaration
  · exact ha.classify_declaration hx hn ht hd
  · exact ha.classify_elsewhere hx ht hd

theorem classifyInitializer_eq_some (ha : a.IsOf l s) (hx : x ∈ a.model.symbols) :
    a.classifyInitializer x t = some k ↔
      k = .constructorInitializer ∧ x ∈ (a.model.resolve t.parent).all := by
  rw [← ha.standsFor_iff hx, classifyInitializer, Plan.classifyInitializer, Plan.value_bind,
    Plan.value_pure, ← standsFor]
  constructor
  · intro h
    split at h
    · next hs => exact ⟨(Option.some.inj h).symm, hs⟩
    · cases h
  · rintro ⟨rfl, hs⟩
    rw [if_pos hs]

/-! ## One way from each place -/

theorem text_ne_nil (ha : a.IsOf l s) (hx : x ∈ a.model.symbols) (hn : x.name ≠ [])
    (ht : t ∈ a.tree.tokens) (h : Refers a x t k) : t.token.text ≠ [] := by
  have hname (hp : t.parent.kind = .identifierName) : t.token.text ≠ [] := by
    obtain ⟨-, hi, hm⟩ := ha.children_parent ht hp
    rw [ha.tree] at ht
    exact Tree.text_ne_nil ht hm (by rw [hi]; exact nofun) (by rw [hi]; exact nofun)
  cases k with
  | definition =>
      obtain ⟨d, -, hds, hd, -⟩ := ha.exists_declaration hx hn
      exact Token.text_ne_nil_of_span_eq (h.trans hds.symm) hd
  | reference => exact hname h.2.2.1
  | aliasReference => exact hname h.1
  | constructorInitializer =>
      obtain ⟨-, -, hm, hw, -⟩ := h
      generalize a.tree.language = r at hw
      rw [ha.tree] at ht
      refine Tree.text_ne_nil ht hm (fun he => ?_) fun he => ?_
      · rw [he] at hw
        cases r <;> cases hw
      · rw [he] at hw
        cases r <;> cases hw

theorem not_initializer (ha : a.IsOf l s) (hx : x ∈ a.model.symbols) (hn : x.name ≠ [])
    (ht : t ∈ a.tree.tokens) (h : Refers a x t k) (hk : k ≠ .constructorInitializer) :
    t.parent.kind ≠ .constructorInitializer := by
  cases k with
  | definition => exact (ha.kind_of_declaration hx hn ht h).2
  | reference => rw [h.2.2.1]; exact nofun
  | aliasReference => rw [h.1]; exact nofun
  | constructorInitializer => exact absurd rfl hk

theorem refers_unique (ha : a.IsOf l s) (hx : x ∈ a.model.symbols) (hn : x.name ≠ [])
    (ht : t ∈ a.tree.tokens) (h : Refers a x t k) (h' : Refers a x t k') : k = k' := by
  have hi {k : ReferenceKind} (hr : Refers a x t k) (hk : k = .constructorInitializer) :
      t.parent.kind = .constructorInitializer := by
    subst hk
    exact hr.2.1
  by_cases hk : k = .constructorInitializer
  · by_cases hk' : k' = .constructorInitializer
    · rw [hk, hk']
    · exact absurd (hi h hk) (ha.not_initializer hx hn ht h' hk')
  · by_cases hk' : k' = .constructorInitializer
    · exact absurd (hi h' hk') (ha.not_initializer hx hn ht h hk)
    · have hc := (ha.classify_eq_some hx hn ht).2 ⟨h, hk⟩
      have hc' := (ha.classify_eq_some hx hn ht).2 ⟨h', hk'⟩
      exact Option.some.inj (hc.symm.trans hc')

/-! ## All locations -/

theorem of_mem_locateNames (ha : a.IsOf l s) (hx : x ∈ a.model.symbols) (hn : x.name ≠ [])
    {names : List Text} (h : loc ∈ a.locateNames x names) :
    ∃ t ∈ a.tree.tokens, ∃ k, Refers a x t k ∧ loc = .ofToken a.source t.token k := by
  obtain ⟨n, -, t, ht, k, hk, rfl⟩ := mem_locateNames_iff.1 h
  have ht := mem_tokens_of_mem_found ht
  exact ⟨t, ht, k, ((ha.classify_eq_some hx hn ht).1 hk).1, rfl⟩

theorem mem_locateNames (ha : a.IsOf l s) (hx : x ∈ a.model.symbols) (hn : x.name ≠ [])
    (ht : t ∈ a.tree.tokens) (h : Refers a x t k) (hk : k ≠ .constructorInitializer)
    (hf : ∃ n ∈ a.namesOf x, t ∈ a.found n) :
    .ofToken a.source t.token k ∈ a.locateNames x (a.namesOf x) := by
  obtain ⟨n, hnm, hf⟩ := hf
  refine mem_locateNames_iff.2 ⟨n, hnm, t, hf, k, ?_, rfl⟩
  exact (ha.classify_eq_some hx hn ht).2 ⟨h, hk⟩

/-- The definition is found by name or looked up where the symbol is declared. -/
theorem mem_missedDefinition (ha : a.IsOf l s) (hx : x ∈ a.model.symbols) (hn : x.name ≠ [])
    (ht : t ∈ a.tree.tokens) (h : t.token.span = x.declaration) {names : List Text} :
    .ofToken a.source t.token .definition ∈
      a.locateNames x names ++ Plan.missedDefinition a x (a.locateNames x names) := by
  obtain ⟨d, hd, hds, hdt, -, -, hu⟩ := ha.exists_declaration hx hn
  obtain rfl := hu t ht h
  rw [Plan.missedDefinition, List.mem_append]
  split
  · next hany =>
      obtain ⟨loc, hl, hk⟩ := List.any_eq_true.1 hany
      obtain ⟨u, hut, k, hr, rfl⟩ := ha.of_mem_locateNames hx hn hl
      obtain rfl : k = .definition := eq_of_beq hk
      rw [hu u hut hr] at hl
      exact .inl hl
  · have hf : a.tree.findToken? x.declaration.start = some t := by
      rw [ha.tree] at ht ⊢
      refine Tree.findToken?_of_contains (Tree.inOrder_parse l s) ht (by rw [h]) ?_
      have := Text.size_pos hdt
      have hs : t.token.span.stop = t.token.span.start + t.token.text.size := rfl
      rw [← h]
      omega
    rw [hf]
    right
    dsimp only
    rw [if_pos (beq_iff_eq.2 h)]
    exact List.mem_cons_self

theorem of_mem_missedDefinition {ls : List Location}
    (h : loc ∈ Plan.missedDefinition a x ls) :
    ∃ t ∈ a.tree.tokens, t.token.span = x.declaration ∧
      loc = .ofToken a.source t.token .definition := by
  unfold Plan.missedDefinition at h
  split at h
  · cases h
  · split at h
    · cases h
    · next t hf =>
        split at h
        · next hs =>
            obtain rfl := List.mem_singleton.1 h
            exact ⟨t, Tree.mem_tokens_of_findToken? hf, eq_of_beq hs, rfl⟩
        · cases h

theorem mem_locateInitializers (ha : a.IsOf l s) (hx : x ∈ a.model.symbols) :
    loc ∈ a.locateInitializers x ↔ ∃ t ∈ a.tree.tokens,
      Refers a x t .constructorInitializer ∧
        loc = .ofToken a.source t.token .constructorInitializer := by
  have hi {t : PlacedToken} : t ∈ a.initializers ↔ t ∈ a.tree.tokens ∧
      t.parent.kind = .constructorInitializer ∧ t.token.isMissing = false ∧
        a.tree.language.isCallWord t.token.kind = true := by
    rw [initializers, ha.facts, ha.tree, Tree.mem_initializerWords]
    exact and_congr_right Tree.isInitializerWord_iff
  rw [locateInitializers, Plan.locateInitializers, Plan.value_ite]
  split
  · next hc =>
      rw [Plan.value_bind, Plan.value_initializers, mem_locate]
      constructor
      · rintro ⟨t, ht, k, hk, rfl⟩
        obtain ⟨rfl, hr⟩ := (ha.classifyInitializer_eq_some hx).1 hk
        obtain ⟨ht, hp, hm, hw⟩ := hi.1 ht
        exact ⟨t, ht, ⟨hc, hp, hm, hw, hr⟩, rfl⟩
      · rintro ⟨t, ht, ⟨-, hp, hm, hw, hr⟩, rfl⟩
        have hk := (ha.classifyInitializer_eq_some hx).2 ⟨rfl, hr⟩
        exact ⟨t, hi.2 ⟨ht, hp, hm, hw⟩, _, hk, rfl⟩
  · next hc =>
      constructor
      · intro h
        cases h
      · rintro ⟨t, -, h, -⟩
        exact absurd h.1 hc

/-- Before they are put in order, the locations are those of the tokens that refer. -/
theorem mem_locations (ha : a.IsOf l s) (hk : (Comparison.ofLanguage l).KeepsLength s.chars)
    (hx : x ∈ a.model.symbols) (hn : x.name ≠ []) :
    let found := a.locateNames x (a.namesOf x)
    loc ∈ found ++ Plan.missedDefinition a x found ++ a.locateInitializers x ↔
      ∃ t ∈ a.tree.tokens, ∃ k, Refers a x t k ∧ loc = .ofToken a.source t.token k := by
  intro found
  rw [List.mem_append, ha.mem_locateInitializers hx]
  constructor
  · rintro (h | ⟨t, ht, hr, rfl⟩)
    · rcases List.mem_append.1 h with h | h
      · exact ha.of_mem_locateNames hx hn h
      · obtain ⟨t, ht, hd, rfl⟩ := of_mem_missedDefinition h
        exact ⟨t, ht, .definition, hd, rfl⟩
    · exact ⟨t, ht, _, hr, rfl⟩
  · rintro ⟨t, ht, k, hr, rfl⟩
    cases k with
    | definition => exact .inl (ha.mem_missedDefinition hx hn ht hr)
    | reference =>
        have hf := ha.exists_name hk hn ht hr.2.2.1 hr.2.2.2.1
        exact .inl (List.mem_append_left _ (ha.mem_locateNames hx hn ht hr nofun hf))
    | aliasReference =>
        have hf : ∃ n ∈ a.namesOf x, t ∈ a.found n := by
          rcases hr.2 with ⟨-, h⟩ | ⟨-, -, h, -⟩
          · exact ⟨x.name, mem_namesOf_self x, ha.mem_found_of_alias? hk hn ht hr.1 h⟩
          · exact ha.exists_name hk hn ht hr.1 h
        exact .inl (List.mem_append_left _ (ha.mem_locateNames hx hn ht hr nofun hf))
    | constructorInitializer => exact .inr ⟨t, ht, hr, rfl⟩

theorem eq_of_mem_locations (ha : a.IsOf l s) (hx : x ∈ a.model.symbols) (hn : x.name ≠ [])
    (ht : t ∈ a.tree.tokens) (hu : u ∈ a.tree.tokens) (h : Refers a x t k) (h' : Refers a x u k')
    (he : t.token.span.start = u.token.span.start) : t = u ∧ k = k' := by
  have htu : t = u := by
    have hnt := ha.text_ne_nil hx hn ht h
    have hnu := ha.text_ne_nil hx hn hu h'
    rw [ha.tree] at ht hu
    exact Tree.eq_of_start_eq ht hu hnt hnu he
  subst htu
  exact ⟨rfl, ha.refers_unique hx hn ht h h'⟩

/-- The references of a symbol are the locations of the tokens that refer to it. -/
theorem mem_references (ha : a.IsOf l s) (hk : (Comparison.ofLanguage l).KeepsLength s.chars)
    (hx : x ∈ a.model.symbols) (hn : x.name ≠ []) :
    loc ∈ a.references x ↔
      ∃ t ∈ a.tree.tokens, ∃ k, Refers a x t k ∧ loc = .ofToken a.source t.token k := by
  rw [references_eq, Location.mem_inOrder]
  · exact ha.mem_locations hk hx hn
  · intro p hp q hq he
    obtain ⟨t, ht, k, hr, rfl⟩ := (ha.mem_locations hk hx hn).1 hp
    obtain ⟨u, hu, k', hr', rfl⟩ := (ha.mem_locations hk hx hn).1 hq
    obtain ⟨rfl, rfl⟩ := ha.eq_of_mem_locations hx hn ht hu hr hr' he
    rfl

/-- What is remembered makes no difference to them. -/
theorem run_references (ha : a.IsOf l s) (x : Symbol) {m : Memo} (hm : m.Truthful a) :
    (Query.references a x false m).1 = .ok (a.references x) :=
  (Query.yields_references ha.tree ha.comparison_index x).run_live hm

end IsOf

end Artifacts

namespace Query

variable {a : Artifacts} {l : Language} {s : SourceText} {x : Symbol}

/-- The references found for a symbol are the tokens that refer to it, each once and in document
order, and one token defines it. -/
theorem references_exact (ha : a.IsOf l s)
    (hk : l = .visualBasic → ∀ c ∈ s.chars, (Unicode.lowercase c).length = 1)
    (hx : x ∈ a.model.symbols) (hn : x.name ≠ []) :
    ∃ ls, (references a x false {}).1 = .ok ls ∧
      ls.Pairwise (fun p q => p.span.start < q.span.start) ∧
      (∀ loc, loc ∈ ls ↔
        ∃ t ∈ a.tree.tokens, ∃ k, Refers a x t k ∧ loc = .ofToken s t.token k) ∧
      ∃ d ∈ a.tree.tokens, Refers a x d .definition ∧
        ∀ t ∈ a.tree.tokens, Refers a x t .definition → t = d := by
  have hkeep := Comparison.keepsLength_ofLanguage hk
  refine ⟨_, ha.run_references x (Memo.truthful_empty a), ?_, fun loc => ?_, ?_⟩
  · rw [Artifacts.references_eq]
    exact Location.pairwise_inOrder _
  · rw [← ha.source]
    exact ha.mem_references hkeep hx hn
  · obtain ⟨d, hd, hds, -, -, -, hu⟩ := ha.exists_declaration hx hn
    exact ⟨d, hd, hds, hu⟩

theorem references_exact_of_class :
    let s := SourceText.ofText "using A = B; class B { B() : this(1) {} B(int x) {} A f; }".toList 0
    let a := Artifacts.ofTree "a.cs" (.parse .csharp s)
    ∃ x ∈ a.model.symbols, x.name ≠ [] ∧ x.kind = .type ∧
      ∃ ls, (references a x false {}).1 = .ok ls ∧
        ls.Pairwise (fun p q => p.span.start < q.span.start) ∧
        (∀ loc, loc ∈ ls ↔
          ∃ t ∈ a.tree.tokens, ∃ k, Refers a x t k ∧ loc = .ofToken s t.token k) ∧
        ∃ d ∈ a.tree.tokens, Refers a x d .definition ∧
          ∀ t ∈ a.tree.tokens, Refers a x t .definition → t = d := by
  intro s a
  have ha : a.IsOf .csharp s := ⟨rfl, rfl, ⟨false, rfl⟩, ⟨_, _, rfl⟩, rfl⟩
  have h : a.model.symbols.any (fun x => x.name == ['B'] && x.kind == .type) = true := by
    decide +kernel
  obtain ⟨x, hx, hb⟩ := List.any_eq_true.1 h
  simp only [Bool.and_eq_true, beq_iff_eq] at hb
  have hn : x.name ≠ [] := by
    rw [hb.1]
    exact List.cons_ne_nil _ _
  exact ⟨x, hx, hn, hb.2, references_exact ha (fun hl => by cases hl) hx hn⟩

/-- A word that the text lacks is no reference, although its initializer calls the constructor. -/
theorem missing_initializer_left_out :
    let s := SourceText.ofText "class C { C() : (1) { } C(int a) { } }".toList 0
    let a := Artifacts.ofTree "a.cs" (.parse .csharp s)
    ∃ x ∈ a.model.symbols, x.name ≠ [] ∧ x.kind.isConstructor = true ∧
      ∃ t ∈ a.tree.tokens, t.parent.kind = .constructorInitializer ∧
        a.tree.language.isCallWord t.token.kind = true ∧ x ∈ (a.model.resolve t.parent).all ∧
          ∃ ls, (references a x false {}).1 = .ok ls ∧
            .ofToken s t.token .constructorInitializer ∉ ls := by
  intro s a
  have ha : a.IsOf .csharp s := ⟨rfl, rfl, ⟨false, rfl⟩, ⟨_, _, rfl⟩, rfl⟩
  let isCall (t : PlacedToken) : Bool :=
    t.parent.kind == .constructorInitializer && a.tree.language.isCallWord t.token.kind
  have called : (a.model.symbols.any fun x => x.name == ['C'] && x.kind.isConstructor &&
      a.tree.tokens.any fun t => isCall t && (a.model.resolve t.parent).all.contains x) = true := by
    decide +kernel
  have missing : a.tree.tokens.all (fun t => !isCall t || t.token.isMissing) = true := by
    decide +kernel
  simp only [List.any_eq_true, Bool.and_eq_true, beq_iff_eq, Array.any_eq_true',
    List.contains_iff_mem, isCall] at called
  obtain ⟨x, hx, ⟨hname, hcon⟩, t, ht, ⟨hp, hw⟩, hres⟩ := called
  have hn : x.name ≠ [] := by
    rw [hname]
    exact List.cons_ne_nil _ _
  refine ⟨x, hx, hn, hcon, t, ht, hp, hw, hres, _, ha.run_references x (Memo.truthful_empty a), ?_⟩
  intro hmem
  obtain ⟨u, hu, k, hr, he⟩ :=
    (ha.mem_references (Comparison.keepsLength_ordinal s.chars) hx hn).1 hmem
  obtain rfl : ReferenceKind.constructorInitializer = k := congrArg Location.kind he
  obtain ⟨-, hup, hum, huw, -⟩ := hr
  have h := Array.all_eq_true'.1 missing u hu
  rw [hum, Bool.or_false, Bool.not_eq_true'] at h
  exact Bool.false_ne_true (h.symm.trans (Bool.and_eq_true_iff.2 ⟨beq_iff_eq.2 hup, huw⟩))

end Query

end Xref
