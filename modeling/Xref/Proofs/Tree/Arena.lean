import Mathlib.Logic.Function.Iterate
import Xref.Proofs.Search.Asked
import Xref.Proofs.Tree.Directives
import Xref.Proofs.Tree.Formed

/-!
# The tables are one forest

A tree can be read by the numbers of its nodes and tokens, by the lists of children, by the way up
to the root, by the trivia that directives are, by walking down, and from token to token. All of
these tell of one forest (`Tree.Coherent`), whatever the text (`Tree.coherent_parse`).

Numbers are places in the tables, so whatever is found by number is unique. A node is in the list of
its parent, and in no other list, since a child of another node would have another parent; it is
there once, since the children of a node are a part of the table. The same goes for tokens. Walking
down leaves out the directives and nothing else. And the next token outside directives is the next
one of those that walking down meets.
-/

namespace Xref

/-! ## What follows what -/

/-- Behind a member that a filter keeps, the next one that it keeps is the first one found. -/
theorem getElem?_filter_succ {α : Type} {p : α → Bool} {xs : List α} {i : Nat} {x : α}
    (h : (xs.filter p)[i]? = some x) :
    ∃ j, xs[j]? = some x ∧ (xs.filter p)[i + 1]? = (xs.drop (j + 1)).find? p := by
  induction xs generalizing i with
  | nil => cases h
  | cons a xs ih =>
      by_cases ha : p a = true
      · rw [List.filter_cons_of_pos ha] at h ⊢
        cases i with
        | zero =>
            refine ⟨0, h, ?_⟩
            show (xs.filter p)[0]? = xs.find? p
            rw [← List.head?_eq_getElem?, List.head?_filter]
        | succ i =>
            obtain ⟨j, hj, hn⟩ := ih h
            exact ⟨j + 1, hj, hn⟩
      · rw [List.filter_cons_of_neg ha] at h ⊢
        obtain ⟨j, hj, hn⟩ := ih h
        exact ⟨j + 1, hj, hn⟩

/-- A list whose next members are given by a function is what the function runs through. -/
theorem getElem?_eq_iterate {α : Type} {f : α → Option α} {xs : List α}
    (h : ∀ i x, xs[i]? = some x → xs[i + 1]? = f x) (i : Nat) :
    xs[i]? = (fun x? => x?.bind f)^[i] xs.head? := by
  induction i with
  | zero => exact List.head?_eq_getElem?.symm
  | succ i ih =>
      rw [Function.iterate_succ_apply', ← ih]
      cases hx : xs[i]? with
      | none => exact List.getElem?_eq_none (Nat.le_succ_of_le (List.getElem?_eq_none_iff.1 hx))
      | some x => exact h i x hx

theorem Forest.firstToken?_eq (f : Forest) : f.firstToken? = f.tokens.head? := by
  induction f with
  | nil => rfl
  | token t rest _ => rfl
  | node head c rest ihc ihr =>
      rw [firstToken?, tokens, List.head?_append, ihc, ihr]
      cases c.tokens.head? <;> rfl

/-! ## Numbers -/

theorem Token.Laid.ids {i j x y : Nat} {ts : List Token} (h : Laid i x ts j y) :
    ts.map Token.id = List.range' i ts.length := by
  induction ts generalizing i x with
  | nil => rfl
  | cons t ts ih => rw [List.map_cons, ih h.2.2, h.1, List.length_cons, List.range'_succ]

namespace Tree

variable {t : Tree} {l : Language} {s : SourceText} {p q r : PlacedNode} {x y : PlacedToken}
  {i : Nat}

theorem ids_tokens (l : Language) (s : SourceText) :
    (parse l s).tokens.toList.map (·.token.id) = List.range (parse l s).tokens.toList.length := by
  obtain ⟨o, hr, -⟩ := exists_outline l s
  have ho := (o.laid_place ⟨1, 0, 0⟩
    { node := ⟨⟨0, .compilationUnit, 0⟩, o.place ⟨1, 0, 0⟩⟩, ancestors := [] }).ids
  rw [tokens_eq, hr, List.range_eq_range']
  rw [List.map_map, List.length_map] at ho
  exact ho

theorem id_of_getElem?_tokens (h : (parse l s).tokens[i]? = some x) : x.token.id = i := by
  rw [← Array.getElem?_toList] at h
  exact eq_of_map_eq_range (f := fun x => x.token.id) (ids_tokens l s) h

theorem token_inj (hx : x ∈ (parse l s).tokens) (hy : y ∈ (parse l s).tokens)
    (h : x.token.id = y.token.id) : x = y := by
  rcases (inOrder_parse l s).cases hx hy with rfl | ⟨hlt, -⟩ | ⟨hlt, -⟩
  · rfl
  · omega
  · omega

/-! ## Lists of children -/

/-- The number is in the list of a node once and in the list of no other node. -/
def OnlyIn (t : Tree) (list : PlacedNode → List Nat) (q : PlacedNode) (i : Nat) : Prop :=
  (list q).count i = 1 ∧ ∀ r ∈ t.nodes, i ∈ list r → r = q

/-- The numbers of the children of a node that are nodes. -/
def childIds (q : PlacedNode) : List Nat :=
  q.node.childNodes.map Node.id

/-- The numbers of the children of a node that are tokens. -/
def tokenIds (q : PlacedNode) : List Nat :=
  q.node.childTokens.map Token.id

theorem nodup_childIds (hq : q ∈ (parse l s).nodes) : (childIds q).Nodup := by
  have hs : (childIds q).Sublist ((q.node.children.placedNodes q.around).map PlacedNode.id) :=
    Node.childNodes_sublist q.node q.around
  have hb := (stretch_below hq).sublist.map PlacedNode.id
  exact (nodup_ids l s).sublist ((hs.trans (List.sublist_cons_self _ _)).trans hb)

theorem onlyIn_childIds (hp : p ∈ (parse l s).nodes) (hq : p.parent? = some q) :
    (parse l s).OnlyIn childIds q p.id := by
  obtain ⟨hqm, hn⟩ := of_parent? hp hq
  refine ⟨List.count_eq_one_of_mem (nodup_childIds hqm) (List.mem_map_of_mem hn), fun r hr hi => ?_⟩
  obtain ⟨n, hn, hi⟩ := List.mem_map.1 hi
  -- the child of the other node has the number of this one, so it is this one, with its parent
  have hc : r.child n = p := node_inj (child_mem_nodes hr hn) hp hi
  have hr := PlacedNode.parent?_child (owner_of_mem_childNodes hr hn) n
  rw [hc, hq] at hr
  exact (Option.some.inj hr).symm

end Tree

/-- A walk asks about the child tokens of a node in their order. -/
theorem Visit.childTokens_sublist (p : PlacedNode) : p.childTokens.Sublist (asked [.node p]) := by
  have h (f : Forest) : ((Node.mk p.node.head f).childTokens.map fun t =>
      (⟨t, p, p.owner.isSome⟩ : PlacedToken)).Sublist
        ((f.elements.map (ofElement p)).flatMap tokens) := by
    induction f with
    | nil => exact List.Sublist.refl _
    | token t rest ih =>
        rw [Forest.elements, List.map_cons, List.flatMap_cons, ofElement, tokens, List.append_assoc]
        exact (ih.cons_cons _).trans (List.sublist_append_right _ _)
    | node head c rest _ ih =>
        rw [Forest.elements, List.map_cons, List.flatMap_cons]
        exact ih.trans (List.sublist_append_right _ _)
  rw [asked_node]
  exact h p.node.children

namespace Tree

variable {t : Tree} {l : Language} {s : SourceText} {p q r : PlacedNode} {x y : PlacedToken}
  {i : Nat}

theorem nodup_tokenIds (hq : q ∈ (parse l s).nodes) : (tokenIds q).Nodup := by
  have hn : ((parse l s).tokens.toList.map (·.token.id)).Nodup := by
    rw [ids_tokens]
    exact List.nodup_range
  have ha := asked_infix hq
  have hs := ((Visit.childTokens_sublist q).trans ha.sublist).map (·.token.id)
  rw [PlacedNode.childTokens, List.map_map] at hs
  exact hn.sublist hs

theorem onlyIn_tokenIds (hx : x ∈ (parse l s).tokens) :
    (parse l s).OnlyIn tokenIds x.parent x.token.id := by
  have hm := (Node.mem_placedTokens_iff.1 (mem_tokens_iff.1 hx)).2.1
  refine ⟨List.count_eq_one_of_mem (nodup_tokenIds (parent_mem_nodes hx))
    (List.mem_map_of_mem hm), fun r hr hi => ?_⟩
  obtain ⟨u, hu, hi⟩ := List.mem_map.1 hi
  exact congrArg PlacedToken.parent (token_inj (childToken_mem_tokens hr hu) hx hi)

/-! ## The way up -/

/-- Upwards from a node that is no directive the last node is the root. -/
theorem getLast?_ancestors (hp : p ∈ t.nodes) (ho : p.owner = none) :
    p = t.placedRoot ∨ p.ancestors.getLast? = some t.root := by
  -- around the parent there is one node less, and it is no directive either
  obtain ⟨as, has⟩ : ∃ as, p.ancestors = as := ⟨_, rfl⟩
  induction as generalizing p with
  | nil =>
      rcases exists_parent hp ho with h | ⟨q, -, -, h⟩
      · exact .inl h
      · rw [h] at has
        cases has
  | cons a as ih =>
      rcases exists_parent hp ho with h | ⟨q, hq, hn, h⟩
      · exact .inl h
      · have ha : p.ancestors = q.node :: q.ancestors := by rw [h]; rfl
        right
        rcases ih hq (owner_of_mem_childNodes hq hn) (List.cons.inj (ha.symm.trans has)).2 with
          rfl | hl
        · rw [ha]
          rfl
        · rw [ha, List.getLast?_cons, hl]
          rfl

/-! ## From token to token -/

/-- The tokens outside directives. -/
def outside (t : Tree) : List PlacedToken :=
  t.tokens.toList.filter fun x => !x.inDirective

theorem nextToken?_outside (hx : (parse l s).outside[i]? = some x) :
    (parse l s).outside[i + 1]? = (parse l s).nextToken? x := by
  obtain ⟨j, hj, hn⟩ := getElem?_filter_succ hx
  have hid : x.token.id = j := id_of_getElem?_tokens (by rw [← Array.getElem?_toList, hj])
  have ho : x.inDirective = false := by
    have h := (List.mem_filter.1 (List.mem_of_getElem? hx)).2
    rwa [Bool.not_eq_true'] at h
  -- the search goes on behind the token and wants a token that is outside as well
  rw [nextToken?, findFrom?_eq, hid, ho]
  refine hn.trans (congrArg (fun f => List.find? f _) (funext fun y => ?_))
  cases y.inDirective <;> rfl

/-! ## One forest -/

/-- The numbers, lists, links and walks of a tree tell of one forest. -/
structure Coherent (t : Tree) : Prop where
  root : t.nodes[0]? = some t.placedRoot ∧ t.placedRoot.kind = .compilationUnit
  nodeId : ∀ (i : Nat) (p : PlacedNode), t.nodes[i]? = some p → p.id = i
  tokenId : ∀ (i : Nat) (x : PlacedToken), t.tokens[i]? = some x → x.token.id = i
  /-- A node is the child of its parent and of no other node, and so on up to the root. -/
  nodes : ∀ p ∈ t.nodes, p.id ≠ 0 → p.kind ≠ .directive →
    ∃ q ∈ t.nodes, p.parent? = some q ∧ q.id < p.id ∧ t.OnlyIn childIds q p.id ∧
      p.ancestors.getLast? = some t.root
  /-- A token is the child of its parent and of no other node. -/
  tokens : ∀ x ∈ t.tokens, x.parent ∈ t.nodes ∧ t.OnlyIn tokenIds x.parent x.token.id
  /-- A directive is the node of one piece of trivia, and it knows this piece. The token that has
  the piece comes behind the words of the directive. -/
  directives : ∀ d ∈ t.nodes, d.kind = .directive →
    d.parent? = none ∧ (t.tokens.toList.flatMap (·.token.links)).count d.id = 1 ∧
      ∃ x ∈ t.tokens, ∃ k e, x.token.leading[k]? = some e ∧ e.kind = .directive ∧
        e.node = some d.id ∧ e.span = d.node.fullSpan ∧
        d.owner = some ⟨t.source.slice e.span, x.token.id, k⟩ ∧
        ∀ w ∈ d.words, w ∈ t.tokens ∧ w.token.id < x.token.id
  /-- Walking down from the root meets the other nodes, by number. -/
  descendants : t.placedRoot.descendants = t.nodes.toList.filter (fun p => p.kind != .directive) ∧
    t.placedRoot.descendants.Pairwise fun p q => p.id < q.id
  /-- It meets the tokens outside directives, by number. -/
  descendantTokens : t.root.tokens = t.outside.map (·.token) ∧
    t.root.tokens.Pairwise fun x y => x.id < y.id
  /-- So does following the next token from the first. -/
  next : t.root.firstToken? = t.outside.head?.map (·.token) ∧
    ∀ i, t.outside[i]? = (fun x? => x?.bind t.nextToken?)^[i] t.outside.head?

theorem coherent_nodes (hp : p ∈ (parse l s).nodes) (h0 : p.id ≠ 0) (hk : p.kind ≠ .directive) :
    ∃ q ∈ (parse l s).nodes, p.parent? = some q ∧ q.id < p.id ∧
      (parse l s).OnlyIn childIds q p.id ∧ p.ancestors.getLast? = some (parse l s).root := by
  have ho := owner_eq_none hp hk
  have hne : p ≠ (parse l s).placedRoot := by
    rintro rfl
    exact h0 rfl
  rcases exists_parent hp ho with rfl | ⟨q, hq, hn, h⟩
  · exact absurd rfl hne
  have hpar : p.parent? = some q := by
    rw [h]
    exact PlacedNode.parent?_child (owner_of_mem_childNodes hq hn) _
  exact ⟨q, hq, hpar, id_lt_of_mem_childNodes hq hn, onlyIn_childIds hp hpar,
    (getLast?_ancestors hp ho).resolve_left hne⟩

theorem coherent_directives (hp : p ∈ (parse l s).nodes) (hk : p.kind = .directive) :
    p.parent? = none ∧ ((parse l s).tokens.toList.flatMap (·.token.links)).count p.id = 1 := by
  have ho := (kind_eq_directive_iff hp).1 hk
  constructor
  · rw [PlacedNode.parent?, ancestors_of_owner hp ho]
  · have hn : ((parse l s).nodes.toList.map PlacedNode.id).Nodup := by
      rw [nodes_eq]
      exact nodup_ids l s
    rw [links_tokens]
    refine List.count_eq_one_of_mem (hn.sublist (List.filter_sublist.map _)) ?_
    refine List.mem_map_of_mem (List.mem_filter.2 ⟨Array.mem_toList_iff.2 hp, ?_⟩)
    exact Option.isSome_iff_ne_none.2 ho

theorem descendants_placedRoot (l : Language) (s : SourceText) :
    (parse l s).placedRoot.descendants =
      (parse l s).nodes.toList.filter fun p => p.kind != .directive := by
  have hd : (parse l s).placedRoot.descendants =
      (parse l s).nodes.toList.filter fun p => p.owner.isNone := by
    rw [nodes_eq]
    exact Node.descendants_eq _
  rw [hd]
  refine List.filter_congr fun p hp => ?_
  have hk := kind_eq_directive_iff (Array.mem_toList_iff.1 hp)
  cases ho : p.owner with
  | none => exact (bne_iff_ne.2 fun h => hk.1 h ho).symm
  | some o =>
      have hk : p.kind = .directive := hk.2 (by rw [ho]; exact nofun)
      rw [hk]
      rfl

/-- The tree of a text is one forest, however it is read. -/
theorem coherent_parse (l : Language) (s : SourceText) : (parse l s).Coherent where
  root := ⟨getElem?_id (placedRoot_mem_nodes _), rfl⟩
  nodeId _ _ h := id_of_getElem?_nodes h
  tokenId _ _ h := id_of_getElem?_tokens h
  nodes _ hp h0 hk := coherent_nodes hp h0 hk
  tokens _ hx := ⟨parent_mem_nodes hx, onlyIn_tokenIds hx⟩
  directives d hd hk := by
    obtain ⟨hp, hc⟩ := coherent_directives hd hk
    exact ⟨hp, hc, exists_piece hd ((kind_eq_directive_iff hd).1 hk)⟩
  descendants := by
    refine ⟨descendants_placedRoot l s, ?_⟩
    rw [descendants_placedRoot, nodes_eq]
    exact (pairwise_ids l s).filter _
  descendantTokens := by
    refine ⟨tokens_root _, ?_⟩
    rw [tokens_root, List.pairwise_map]
    exact (List.Pairwise.imp And.left (inOrder_parse l s)).filter _
  next := by
    refine ⟨?_, getElem?_eq_iterate fun i x hx => nextToken?_outside hx⟩
    rw [Node.firstToken?, Forest.firstToken?_eq, ← List.head?_map]
    exact congrArg List.head? (tokens_root _)

end Tree

end Xref
