import Xref.Proofs.Tree.Children
import Xref.Proofs.Tree.Formed
import Xref.Symbols.Model

/-!
# Where symbols are declared

The declarations of a tree are drafted node by node and then numbered. A symbol is known by its
number (`Model.eq_of_id_eq`), a node declares one symbol at most, so asking the model about the node
of a draft gives the symbol of that draft (`Model.declared?_node`), and the name that declares a
symbol is a token of the tree that stands neither in a reference nor in an initializer
(`Draft.exists_token`).
-/

namespace Xref

/-! ## Drafts -/

namespace Draft

variable {t : Tree} {l : Language} {s : SourceText} {d : Draft} {p : PlacedNode} {span : Span}

/-- The draft of an alias: the name stands in a node of its own. -/
structure OfAlias (d : Draft) (e : Node) : Prop where
  node_kind : d.node.kind = .usingDirective
  mem : e ∈ d.node.node.childNodes
  kind : e.kind = .nameEquals
  name : e.firstToken? = some d.name
  target : d.kind = .aliasOf (aliasTarget d.node.node)
  present : d.name.isMissing = false

/-- The draft of anything else: the name stands in the node that declares it. -/
structure OfOther (d : Draft) : Prop where
  node_kind : d.node.kind = .classDeclaration ∨ d.node.kind = .constructorDeclaration ∨
    d.node.kind = .declarator
  name : d.name ∈ d.node.node.childTokens ∨
    (d.node.kind = .declarator ∧ d.node.node.firstToken? = some d.name)
  isAlias : d.kind.isAlias = false

theorem of_type? (h : type? span p = some d) :
    d.node = p ∧ p.kind = .classDeclaration ∧ d.OfOther := by
  unfold type? at h
  split at h
  · next hk =>
      obtain ⟨x, hx, rfl⟩ := Option.map_eq_some_iff.1 h
      exact ⟨rfl, hk, .inl hk, .inl (List.mem_of_find?_eq_some hx), rfl⟩
  · cases h

theorem of_alias? (hk : p.kind = .usingDirective) (h : alias? span p = some d) :
    d.node = p ∧ ∃ e, d.OfAlias e := by
  unfold alias? at h
  split at h
  · cases h
  · next e he =>
      split at h
      · cases h
      · next x hx =>
          split at h
          · cases h
          · next hm =>
              obtain rfl := Option.some.inj h
              have hke : (e.kind == .nameEquals) = true :=
                List.find?_some (p := fun m : Node => m.kind == .nameEquals) he
              exact ⟨rfl, e, hk, List.mem_of_find?_eq_some he, eq_of_beq hke, hx, rfl,
                Bool.eq_false_iff.2 hm⟩

theorem of_constructor? (hk : p.kind = .constructorDeclaration)
    (h : constructor? l span p = some d) : d.node = p ∧ d.OfOther := by
  obtain ⟨x, hx, rfl⟩ := Option.map_eq_some_iff.1 h
  exact ⟨rfl, .inr (.inl hk), .inl (List.mem_of_find?_eq_some hx), rfl⟩

theorem isAlias_nameKind (span : Span) (p : PlacedNode) (n : Node) (b : Bool) :
    (nameKind span p n b).1.isAlias = false := by
  unfold nameKind
  cases b <;> (dsimp only; split <;> rfl)

theorem of_name? (hk : p.kind = .declarator) (h : name? t span p = some d) :
    d.node = p ∧ d.OfOther := by
  unfold name? at h
  split at h
  · next x n hx hn =>
      obtain rfl := Option.some.inj h
      exact ⟨rfl, .inr (.inr hk), .inr ⟨hk, hx⟩, isAlias_nameKind _ _ _ _⟩
  · cases h

theorem of_other? (h : other? t span p = some d) :
    d.node = p ∧ p.kind ≠ .classDeclaration ∧ ((∃ e, d.OfAlias e) ∨ d.OfOther) := by
  unfold other? at h
  split at h
  · next hk =>
      obtain ⟨hp, ha⟩ := of_alias? hk h
      exact ⟨hp, by rw [hk]; exact nofun, .inl ha⟩
  · next hk =>
      obtain ⟨hp, ho⟩ := of_constructor? hk h
      exact ⟨hp, by rw [hk]; exact nofun, .inr ho⟩
  · next hk =>
      obtain ⟨hp, ho⟩ := of_name? hk h
      exact ⟨hp, by rw [hk]; exact nofun, .inr ho⟩
  · cases h

/-- A draft is made of a node of the tree, for an alias or for something else. -/
theorem of_mem_all (h : d ∈ all t) :
    d.node ∈ t.nodes ∧ ((∃ e, d.OfAlias e) ∨ d.OfOther) := by
  rcases List.mem_append.1 h with h | h
  · obtain ⟨p, hp, hd⟩ := List.mem_filterMap.1 h
    obtain ⟨rfl, -, ho⟩ := of_type? hd
    exact ⟨Array.mem_toList_iff.1 hp, .inr ho⟩
  · obtain ⟨p, hp, hd⟩ := List.mem_filterMap.1 h
    obtain ⟨rfl, -, ho⟩ := of_other? hd
    exact ⟨Array.mem_toList_iff.1 hp, ho⟩

theorem pairwise_all (l : Language) (s : SourceText) :
    (all (.parse l s)).Pairwise fun d e => d.node.id ≠ e.node.id := by
  have hn : (Tree.parse l s).nodes.toList.Pairwise fun p q => p.id ≠ q.id := by
    rw [Tree.nodes_eq]
    exact (Tree.pairwise_ids l s).imp Nat.ne_of_lt
  rw [all, List.pairwise_append, List.pairwise_filterMap, List.pairwise_filterMap]
  refine ⟨hn.imp ?_, hn.imp ?_, ?_⟩
  · intro p q hpq d hd e he
    rwa [(of_type? hd).1, (of_type? he).1]
  · intro p q hpq d hd e he
    rwa [(of_other? hd).1, (of_other? he).1]
  · intro d hd e he hid
    obtain ⟨p, hp, hd⟩ := List.mem_filterMap.1 hd
    obtain ⟨q, hq, he⟩ := List.mem_filterMap.1 he
    obtain ⟨rfl, hk, -⟩ := of_type? hd
    obtain ⟨rfl, hk', -⟩ := of_other? he
    rw [Array.mem_toList_iff] at hp hq
    rw [Tree.node_inj hp hq hid] at hk
    exact hk' hk

/-- The alias stands in its node before a mark that the text has. -/
theorem OfAlias.children {e : Node} (ha : d.OfAlias e) (hp : d.node ∈ (Tree.parse l s).nodes) :
    ∃ mark, e.children = .token d.name (.token mark .nil) ∧ d.name.kind = .identifier ∧
      d.name.value ≠ [] ∧ mark.kind = .equals ∧ mark.isMissing = false := by
  obtain ⟨x, y, hc, hk, hv⟩ := Tree.children_of_nameEquals (Tree.child_mem_nodes hp ha.mem) ha.kind
  have hc : e.children = .token x (.token y .nil) := hc
  have hx := ha.name
  rw [Node.firstToken?, hc] at hx
  obtain rfl : x = d.name := Option.some.inj hx
  exact ⟨y, hc, hk, hv ha.present⟩

/-- The alias is the first token of its node, is a name, and stands for something. -/
theorem OfAlias.token {e : Node} (ha : d.OfAlias e) (hp : d.node ∈ (Tree.parse l s).nodes) :
    d.node.child e ∈ (Tree.parse l s).nodes ∧ d.name ∈ e.childTokens ∧
      d.name.kind = .identifier ∧ d.name.value ≠ [] := by
  obtain ⟨y, hc, hk, hv, -⟩ := ha.children hp
  refine ⟨Tree.child_mem_nodes hp ha.mem, ?_, hk, hv⟩
  rw [Node.mem_childTokens, hc]
  exact List.mem_cons_self

/-- The name that declares something is a token of the tree, and no reference. It stands in the
node that declares, or in a node around an alias. -/
theorem exists_token (h : d ∈ all (.parse l s)) :
    ∃ x ∈ (Tree.parse l s).tokens, x.token = d.name ∧
      x.parent.kind ≠ .identifierName ∧ x.parent.kind ≠ .constructorInitializer ∧
        ((x.parent.kind ≠ .nameEquals ∧ x.parent = d.node) ∨
          (x.parent.kind = .nameEquals ∧ x.parent.parent? = some d.node)) := by
  obtain ⟨hp, ho⟩ := of_mem_all h
  rcases ho with ⟨e, ha⟩ | ho
  · obtain ⟨hq, ht, -, -⟩ := ha.token hp
    have hk : (d.node.child e).kind = .nameEquals := ha.kind
    refine ⟨_, Tree.childToken_mem_tokens hq ht, rfl, fun h => ?_, fun h => ?_, .inr ⟨hk, ?_⟩⟩
    · cases hk.symm.trans h
    · cases hk.symm.trans h
    · have hn := Tree.owner_eq_none hp (by rw [ha.node_kind]; exact nofun)
      generalize d.node = q at hn
      obtain ⟨n, as, o⟩ := q
      obtain rfl : o = none := hn
      rfl
  · have ht : d.name ∈ d.node.node.childTokens := by
      rcases ho.name with ht | ⟨hk, ht⟩
      · exact ht
      · obtain ⟨x, hc, -⟩ := Tree.children_of_name hp (.inr hk)
        rw [Node.firstToken?, hc] at ht
        obtain rfl : x = d.name := Option.some.inj ht
        rw [Node.mem_childTokens, hc]
        exact List.mem_cons_self
    refine ⟨_, Tree.childToken_mem_tokens hp ht, rfl, fun h => ?_, fun h => ?_,
      .inl ⟨fun h => ?_, rfl⟩⟩
    all_goals rcases ho.node_kind with hk | hk | hk <;> cases hk.symm.trans h

end Draft

/-! ## Symbols -/

namespace Model

variable {t : Tree} {l : Language} {s : SourceText} {b : Bool} {x y : Symbol}

theorem mem_declarations_build {D : Declaration} : D ∈ (build t b).declarations ↔
    ∃ i d, (Draft.all t)[i]? = some d ∧ D = Draft.number i d := by
  rw [build, Declaration.all]
  constructor
  · intro h
    obtain ⟨i, hi, rfl⟩ := List.getElem_of_mem h
    rw [List.length_mapIdx] at hi
    exact ⟨i, _, List.getElem?_eq_getElem hi, by rw [List.getElem_mapIdx]⟩
  · rintro ⟨i, d, hd, rfl⟩
    refine List.mem_of_getElem? (i := i) ?_
    rw [List.getElem?_mapIdx, hd]
    rfl

theorem mem_symbols_build :
    x ∈ (build t b).symbols ↔
      ∃ i d, (Draft.all t)[i]? = some d ∧ x = (Draft.number i d).symbol := by
  rw [symbols, List.mem_map]
  constructor
  · rintro ⟨D, hD, rfl⟩
    obtain ⟨i, d, hd, rfl⟩ := mem_declarations_build.1 hD
    exact ⟨i, d, hd, rfl⟩
  · rintro ⟨i, d, hd, rfl⟩
    exact ⟨_, mem_declarations_build.2 ⟨i, d, hd, rfl⟩, rfl⟩

theorem eq_of_id_eq (hx : x ∈ (build t b).symbols) (hy : y ∈ (build t b).symbols)
    (h : x.id = y.id) : x = y := by
  obtain ⟨i, d, hd, rfl⟩ := mem_symbols_build.1 hx
  obtain ⟨j, e, he, rfl⟩ := mem_symbols_build.1 hy
  obtain rfl : i = j := h
  rw [hd] at he
  rw [Option.some.inj he]

theorem declared?_node {i : Nat} {d : Draft} (h : (Draft.all (.parse l s))[i]? = some d) :
    (build (.parse l s) b).declared? d.node = some (Draft.number i d).symbol := by
  obtain ⟨hi, hd⟩ := List.getElem?_eq_some_iff.1 h
  have hf : (Declaration.all (.parse l s)).find? (fun D => D.node.id == d.node.id) =
      some (Draft.number i d) := by
    rw [List.find?_eq_some_iff_getElem]
    refine ⟨beq_self_eq_true _, i, ?_, ?_, fun j hj => ?_⟩
    · rw [Declaration.all, List.length_mapIdx]
      exact hi
    · simp only [Declaration.all, List.getElem_mapIdx, hd]
    · have hne := List.pairwise_iff_getElem.1 (Draft.pairwise_all l s) j i
        (Nat.lt_trans hj hi) hi hj
      rw [hd] at hne
      simp only [Declaration.all, List.getElem_mapIdx, Draft.number, Bool.not_eq_true',
        beq_eq_false_iff_ne]
      exact hne
  rw [declared?, build, hf]
  rfl

/-- What a node declares is drafted from that node, and if the node is no type, behind the types. -/
theorem of_declared? {p : PlacedNode} (hp : p ∈ (Tree.parse l s).nodes)
    (hk : p.kind ≠ .classDeclaration) (hx : (build (.parse l s) b).declared? p = some x) :
    ∃ i d, (Draft.all (.parse l s))[i]? = some d ∧ x = (Draft.number i d).symbol ∧
      Draft.other? (.parse l s) (Tree.parse l s).root.fullSpan p = some d := by
  obtain ⟨D, hD, rfl⟩ := Option.map_eq_some_iff.1 hx
  obtain ⟨i, d, hd, rfl⟩ := mem_declarations_build.1 (List.mem_of_find?_eq_some hD)
  have hm := List.mem_of_getElem? hd
  have hid := List.find?_some (p := fun D : Declaration => D.node.id == p.id) hD
  have hn : d.node = p := Tree.node_inj (Draft.of_mem_all hm).1 hp (eq_of_beq hid)
  refine ⟨i, d, hd, rfl, ?_⟩
  rcases List.mem_append.1 hm with hm | hm
  · obtain ⟨q, -, hq⟩ := List.mem_filterMap.1 hm
    obtain ⟨rfl, hc, -⟩ := Draft.of_type? hq
    exact absurd (hn ▸ hc) hk
  · obtain ⟨q, -, hq⟩ := List.mem_filterMap.1 hm
    obtain rfl := (Draft.of_other? hq).1.symm.trans hn
    exact hq

end Model

end Xref
