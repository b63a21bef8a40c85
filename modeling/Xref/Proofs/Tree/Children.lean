import Xref.Proofs.Tree.Tiling

/-!
# Nodes and their children

Every node in the table but the root and the directives is a child of another one, its parent
(`Tree.exists_parent`). What is below a node follows it in the table without a gap
(`Forest.below_infix`), so a parent has a smaller number than its children, and the children of one
node have different numbers.

Since children tile the full span of their parent, a node lies in the full span of every node around
it (`Tree.encloses_ancestor`).
-/

namespace Xref

/-! ## Children in the tables -/

theorem Forest.mem_placedNodes_of_mem_elements {f : Forest} {as : List Node} {n : Node}
    (h : .node n ∈ f.elements) : { node := n, ancestors := as } ∈ f.placedNodes as := by
  induction f with
  | nil => cases h
  | token t rest ih =>
      rcases List.mem_cons.1 h with h | h
      · cases h
      · exact List.mem_append_right _ (ih h)
  | node head children rest _ ih =>
      rcases List.mem_cons.1 h with h | h
      · obtain rfl := Element.node.inj h
        exact List.mem_cons_self
      · exact List.mem_cons_of_mem _ (List.mem_append_right _ (ih h))

theorem Node.mem_childNodes {n m : Node} : m ∈ n.childNodes ↔ .node m ∈ n.children.elements := by
  rw [Node.childNodes, List.mem_filterMap]
  constructor
  · rintro ⟨e, he, hx⟩
    cases e with
    | token t => cases hx
    | node m => cases hx; exact he
  · exact fun h => ⟨_, h, rfl⟩

/-- The children of a node are in the table of what is below it, in the same order. -/
theorem Node.childNodes_sublist (n : Node) (as : List Node) :
    (n.childNodes.map Node.id).Sublist ((n.children.placedNodes as).map PlacedNode.id) := by
  obtain ⟨h, f⟩ := n
  induction f with
  | nil => exact List.Sublist.refl _
  | token t rest ih =>
      rw [Forest.placedNodes, List.map_append]
      exact ih.trans (List.sublist_append_right _ _)
  | node head children rest _ ihr =>
      rw [Forest.placedNodes, List.map_cons, List.map_append]
      exact (ihr.trans (List.sublist_append_right _ _)).cons_cons _

theorem PlacedNode.parent?_child {p : PlacedNode} (ho : p.owner = none) (n : Node) :
    (p.child n).parent? = some p := by
  obtain ⟨m, as, o⟩ := p
  obtain rfl : o = none := ho
  rfl

/-- Below a directive there is no node. -/
theorem Token.below_placedDirectives {t : Token} {d : PlacedNode} (h : d ∈ t.placedDirectives) :
    d.node.childNodes = [] ∧ d.node.children.placedNodes d.around = [] := by
  obtain ⟨-, -, -, -, hw, -, hc⟩ := Token.mem_placedDirectives h
  rw [Node.childNodes, Node.elements, hc]
  constructor
  · rw [Forest.elements_ofTokens, List.filterMap_map]
    exact List.filterMap_eq_nil_iff.2 fun _ _ => rfl
  · rw [Forest.placedNodes_ofTokens]
    exact List.flatMap_eq_nil_iff.2 hw

namespace Forest

variable {f : Forest} {as : List Node} {p parent : PlacedNode}

/-- What is below a node follows it without a gap. -/
theorem below_infix (hp : p ∈ f.placedNodes as) :
    p :: p.node.children.placedNodes p.around <:+: f.placedNodes as := by
  induction f generalizing as with
  | nil => cases hp
  | token t rest ih =>
      rcases List.mem_append.1 hp with hp | hp
      · rw [(Token.below_placedDirectives hp).2]
        obtain ⟨ds, es, hd⟩ := List.append_of_mem hp
        rw [placedNodes, hd]
        exact (List.infix_append' ds [p] es).trans (List.prefix_append _ _).isInfix
      · exact (ih hp).trans (List.suffix_append _ _).isInfix
  | node head children rest ihc ihr =>
      rw [placedNodes]
      rcases List.mem_cons.1 hp with rfl | hp
      · exact (List.prefix_append _ _).isInfix
      · rcases List.mem_append.1 hp with hp | hp
        · have hc := (ihc hp).trans (List.prefix_append _ (rest.placedNodes as)).isInfix
          exact hc.trans (List.suffix_cons _ _).isInfix
        · exact (ihr hp).trans ((List.suffix_append _ _).trans (List.suffix_cons _ _)).isInfix

/-- A node that is no directive is at the top or a child of a node of the table. -/
theorem exists_parent (hp : p ∈ f.placedNodes parent.around) (ho : p.owner = none) :
    (.node p.node ∈ f.elements ∧ p = parent.child p.node) ∨
      ∃ q ∈ f.placedNodes parent.around, p.node ∈ q.node.childNodes ∧ p = q.child p.node := by
  induction f generalizing parent with
  | nil => cases hp
  | token t rest ih =>
      rcases List.mem_append.1 hp with hp | hp
      · have h := (Token.mem_placedDirectives hp).2.2.2.1
        rw [ho] at h
        cases h
      · rcases ih hp with ⟨he, h⟩ | ⟨q, hq, h⟩
        · exact .inl ⟨List.mem_cons_of_mem _ he, h⟩
        · exact .inr ⟨q, List.mem_append_right _ hq, h⟩
  | node head children rest ihc ihr =>
      rcases List.mem_cons.1 hp with rfl | hp
      · exact .inl ⟨List.mem_cons_self, rfl⟩
      rcases List.mem_append.1 hp with hp | hp
      · have hn : p ∈ children.placedNodes (parent.child ⟨head, children⟩).around := hp
        rcases ihc hn with ⟨he, h⟩ | ⟨q, hq, h⟩
        · exact .inr ⟨_, List.mem_cons_self, Node.mem_childNodes.2 he, h⟩
        · exact .inr ⟨q, List.mem_cons_of_mem _ (List.mem_append_left _ hq), h⟩
      · rcases ihr hp with ⟨he, h⟩ | ⟨q, hq, h⟩
        · exact .inl ⟨List.mem_cons_of_mem _ he, h⟩
        · exact .inr ⟨q, List.mem_cons_of_mem _ (List.mem_append_right _ hq), h⟩

/-- A node with an owner is a directive of a token in the forest, in front of which its words
stand. -/
theorem exists_token_of_owner (hp : p ∈ f.placedNodes as) (ho : p.owner ≠ none)
    (parent : PlacedNode) :
    ∃ x ∈ f.placedTokens parent, x.inDirective = false ∧ p ∈ x.token.placedDirectives ∧
      x.token.placedDirectives.flatMap PlacedNode.words ++ [x] <:+: f.placedTokens parent := by
  induction f generalizing as parent with
  | nil => cases hp
  | token t rest ih =>
      rw [placedTokens, List.append_cons]
      rcases List.mem_append.1 hp with hp | hp
      · refine ⟨⟨t, parent, false⟩, ?_, rfl, hp, (List.prefix_append _ _).isInfix⟩
        exact List.mem_append_left _ (List.mem_append_right _ List.mem_cons_self)
      · obtain ⟨x, hx, hi, hd, hw⟩ := ih hp parent
        exact ⟨x, List.mem_append_right _ hx, hi, hd, hw.trans (List.suffix_append _ _).isInfix⟩
  | node head children rest ihc ihr =>
      rw [placedTokens]
      rcases List.mem_cons.1 hp with rfl | hp
      · exact absurd rfl ho
      rcases List.mem_append.1 hp with hp | hp
      · obtain ⟨x, hx, hi, hd, hw⟩ := ihc hp (parent.child ⟨head, children⟩)
        exact ⟨x, List.mem_append_left _ hx, hi, hd, hw.trans (List.prefix_append _ _).isInfix⟩
      · obtain ⟨x, hx, hi, hd, hw⟩ := ihr hp parent
        exact ⟨x, List.mem_append_right _ hx, hi, hd, hw.trans (List.suffix_append _ _).isInfix⟩

end Forest

namespace Tree

variable {t : Tree} {l : Language} {s : SourceText} {p q : PlacedNode} {n a : Node}

theorem child_mem_nodes (hp : p ∈ t.nodes) (hn : n ∈ p.node.childNodes) : p.child n ∈ t.nodes := by
  rw [mem_nodes_iff] at hp ⊢
  exact Node.placedNodes_subset hp
    (Forest.mem_placedNodes_of_mem_elements (Node.mem_childNodes.1 hn))

theorem childToken_mem_tokens (hp : p ∈ t.nodes) {x : Token} (hx : x ∈ p.node.childTokens) :
    ⟨x, p, p.owner.isSome⟩ ∈ t.tokens :=
  mem_tokens_iff.2 (Node.mem_placedTokens_iff.2 ⟨mem_nodes_iff.1 hp, hx, rfl⟩)

/-- A node with an owner is a directive of a token of the tree, in front of which its words
stand. -/
theorem exists_token_of_owner (hp : p ∈ t.nodes) (ho : p.owner ≠ none) :
    ∃ x ∈ t.tokens, x.inDirective = false ∧ p ∈ x.token.placedDirectives ∧
      x.token.placedDirectives.flatMap PlacedNode.words ++ [x] <:+: t.tokens.toList := by
  rcases List.mem_cons.1 (mem_nodes_iff.1 hp) with rfl | hp
  · exact absurd rfl ho
  · obtain ⟨x, hx, hi, hd, hw⟩ := Forest.exists_token_of_owner hp ho t.placedRoot
    refine ⟨x, mem_tokens_iff.2 hx, hi, hd, ?_⟩
    rw [t.tokens_eq]
    exact hw

/-- Whatever has children is no directive. -/
theorem owner_of_mem_childNodes (hp : p ∈ t.nodes) (hn : n ∈ p.node.childNodes) :
    p.owner = none := by
  by_contra ho
  obtain ⟨x, -, -, hd, -⟩ := exists_token_of_owner hp ho
  rw [(Token.below_placedDirectives hd).1] at hn
  cases hn

/-- A node is the root or a directive or a child of another node. -/
theorem exists_parent (hp : p ∈ t.nodes) (ho : p.owner = none) :
    p = t.placedRoot ∨ ∃ q ∈ t.nodes, p.node ∈ q.node.childNodes ∧ p = q.child p.node := by
  rcases List.mem_cons.1 (mem_nodes_iff.1 hp) with h | h
  · exact .inl h
  · have h : p ∈ t.root.children.placedNodes t.placedRoot.around := h
    rcases Forest.exists_parent h ho with ⟨he, h⟩ | ⟨q, hq, h⟩
    · exact .inr ⟨t.placedRoot, placedRoot_mem_nodes t, Node.mem_childNodes.2 he, h⟩
    · exact .inr ⟨q, mem_nodes_iff.2 (List.mem_cons_of_mem _ hq), h⟩

/-- Directives stand in no other node. -/
theorem ancestors_of_owner (hp : p ∈ t.nodes) (ho : p.owner ≠ none) : p.ancestors = [] := by
  obtain ⟨x, -, -, hd, -⟩ := exists_token_of_owner hp ho
  exact (Token.mem_placedDirectives hd).2.2.1

theorem of_parent? (hp : p ∈ t.nodes) (hq : p.parent? = some q) :
    q ∈ t.nodes ∧ p.node ∈ q.node.childNodes := by
  have ho : p.owner = none := by
    by_contra ho
    rw [PlacedNode.parent?, ancestors_of_owner hp ho] at hq
    cases hq
  rcases exists_parent hp ho with rfl | ⟨r, hr, hn, h⟩
  · cases hq
  · rw [h, PlacedNode.parent?_child (owner_of_mem_childNodes hr hn)] at hq
    obtain rfl := Option.some.inj hq
    exact ⟨hr, hn⟩

/-- What holds of parent and child, and of the first and third wherever it holds of first and second
and of second and third, holds of every node around a node. -/
theorem of_mem_ancestors {R : Node → Node → Prop}
    (hc : ∀ q ∈ t.nodes, ∀ n ∈ q.node.childNodes, R q.node n)
    (ht : ∀ m n o, R m n → R n o → R m o) (hp : p ∈ t.nodes) (ha : a ∈ p.ancestors) :
    (∃ q ∈ t.nodes, q.node = a) ∧ R a p.node := by
  obtain ⟨as, has⟩ : ∃ as, p.ancestors = as := ⟨_, rfl⟩
  induction as generalizing p with
  | nil =>
      rw [has] at ha
      cases ha
  | cons b as ih =>
      have hq : p.parent? = some { node := b, ancestors := as } := by rw [PlacedNode.parent?, has]
      obtain ⟨hqm, hn⟩ := of_parent? hp hq
      have hb : R b p.node := hc _ hqm _ hn
      rw [has] at ha
      rcases List.mem_cons.1 ha with rfl | ha
      · exact ⟨⟨_, hqm, rfl⟩, hb⟩
      · obtain ⟨hm, hr⟩ := ih hqm ha rfl
        exact ⟨hm, ht _ _ _ hr hb⟩

/-! ## Numbers -/

/-- A node and what is below it are a stretch of the table. -/
theorem stretch_below (hp : p ∈ t.nodes) :
    p :: p.node.children.placedNodes p.around <:+: t.root.placedNodes := by
  rcases List.mem_cons.1 (mem_nodes_iff.1 hp) with rfl | hp
  · exact List.infix_rfl
  · exact (Forest.below_infix hp).trans (List.suffix_cons _ _).isInfix

/-- A parent has a smaller number than its children. -/
theorem id_lt_of_mem_childNodes (hp : p ∈ (parse l s).nodes) (hn : n ∈ p.node.childNodes) :
    p.id < n.id := by
  have hs := (pairwise_ids l s).sublist (stretch_below hp).sublist
  have hm : p.child n ∈ p.node.children.placedNodes p.around :=
    Forest.mem_placedNodes_of_mem_elements (Node.mem_childNodes.1 hn)
  exact (List.pairwise_cons.1 hs).1 _ hm

/-! ## Spans -/

end Tree

theorem Span.encloses_trans {a b c : Span} (h : a.encloses b = true) (h' : b.encloses c = true) :
    a.encloses c = true := by
  rw [encloses_iff] at *
  exact ⟨Nat.le_trans h.1 h'.1, Nat.le_trans h'.2 h.2⟩

/-- Each of the spans that follow each other lies between the two ends. -/
theorem Span.Tile.bounds {x y : Nat} {as : List Span} (h : Span.Tile x as y) :
    x ≤ y ∧ ∀ a ∈ as, x ≤ a.start ∧ a.stop ≤ y := by
  induction as generalizing x with
  | nil => exact ⟨Nat.le_of_eq h, List.forall_mem_nil _⟩
  | cons a as ih =>
      obtain ⟨rfl, h⟩ := h
      obtain ⟨hy, hb⟩ := ih h
      have ha := a.start_le_stop
      refine ⟨Nat.le_trans ha hy, List.forall_mem_cons.2 ⟨⟨Nat.le_refl _, hy⟩, fun b hm => ?_⟩⟩
      exact ⟨Nat.le_trans ha (hb b hm).1, (hb b hm).2⟩

namespace Tree

variable {l : Language} {s : SourceText} {p : PlacedNode} {n a : Node}

/-- A child lies in the full span of its parent. -/
theorem encloses_element (hp : p ∈ (parse l s).nodes) {e : Element} (he : e ∈ p.node.elements) :
    p.node.fullSpan.encloses e.fullSpan = true :=
  Span.encloses_iff.2 (((fullSpans_tile l s).1 p hp).bounds.2 _ (List.mem_map_of_mem he))

/-- A node lies in the full span of every node around it, which is in the table too. -/
theorem encloses_ancestor (hp : p ∈ (parse l s).nodes) (ha : a ∈ p.ancestors) :
    (∃ q ∈ (parse l s).nodes, q.node = a) ∧ a.fullSpan.encloses p.node.fullSpan = true := by
  refine of_mem_ancestors (R := fun m n => m.fullSpan.encloses n.fullSpan = true)
    (fun q hq n hn => ?_) (fun m n o h h' => Span.encloses_trans h h') hp ha
  exact encloses_element hq (Node.mem_childNodes.1 hn)

end Tree

end Xref
