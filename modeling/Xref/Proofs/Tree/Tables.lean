import Xref.Facts
import Xref.Tree.Basic

/-!
# The two tables of a tree agree

A tree keeps its nodes in one table and its tokens in another, and each entry carries the nodes
around it. The tables are made by two recursions that never look at each other; here they are
proved to tell one story. An entry of the token table is a child token of an entry of the node
table, and every child token of such an entry is there (`mem_placedTokens_iff`). Walking down from
an entry of the node table meets entries of that table only (`placedNodes_subset`), and the walk
from the root meets all of them that are not directives (`descendants_eq`).

Directives stand apart in both tables. Their nodes hang on no other node, and the words in them
have plain trivia, so no directive is inside a directive.
-/

namespace Xref

/-! ## Directives hold words and nothing else -/

theorem Lead.directiveNodes_trivia (n i j : Nat) (ts : List Trivia) :
    Lead.directiveNodes n i j (ts.map Lead.trivia) = [] := by
  induction ts generalizing n with
  | nil => rfl
  | cons t ts ih => exact ih _

theorem Lead.length_directiveNodes (n i j m : Nat) (ls : List Lead) :
    (Lead.directiveNodes n i j ls).length =
      ((ls.zipIdx m).filter fun l => l.1.isDirective).length := by
  induction ls generalizing n i j m with
  | nil => rfl
  | cons p ls ih =>
      cases p with
      | trivia t => exact ih _ _ _ _
      | directive ws => exact congrArg (· + 1) (ih _ _ _ _)

@[simp] theorem Forest.tokens_ofTokens (ts : List Token) : (Forest.ofTokens ts).tokens = ts := by
  induction ts with
  | nil => rfl
  | cons t ts ih => rw [Forest.ofTokens, Forest.tokens, ih]

@[simp] theorem Forest.elements_ofTokens (ts : List Token) :
    (Forest.ofTokens ts).elements = ts.map .token := by
  induction ts with
  | nil => rfl
  | cons t ts ih => rw [Forest.ofTokens, Forest.elements, ih]; rfl

theorem Node.childTokens_ofTokens (h : NodeHead) (ts : List Token) :
    (Node.mk h (.ofTokens ts)).childTokens = ts := by
  rw [Node.childTokens, Node.elements, Forest.elements_ofTokens, List.filterMap_map]
  exact List.filterMap_some

theorem Token.directives_of_layOutWords {n i k : Nat} {ws : List Word} {t : Token}
    (h : t ∈ Token.layOutWords n i k ws) : t.directives = [] := by
  induction ws generalizing n i with
  | nil => cases h
  | cons w ws ih =>
      rcases List.mem_cons.1 h with rfl | h
      · exact Lead.directiveNodes_trivia _ _ _ w.leading
      · exact ih h

theorem Lead.mem_directiveNodes {d : Node} {n i j : Nat} {ls : List Lead}
    (h : d ∈ Lead.directiveNodes n i j ls) :
    d.kind = .directive ∧ ∃ n' i' j' ws, d = ⟨⟨i', .directive, n'⟩, .ofTokens
      (Token.layOutWords n' j' i' ws)⟩ := by
  induction ls generalizing n i j with
  | nil => cases h
  | cons p ls ih =>
      cases p with
      | trivia t => exact ih h
      | directive ws =>
          rcases List.mem_cons.1 h with rfl | h
          · exact ⟨rfl, n, i, j, ws, rfl⟩
          · exact ih h

/-- What a directive of a token is, all of it: a node over words, which have no directives. -/
theorem Token.mem_placedDirectives {t : Token} {d : PlacedNode} (h : d ∈ t.placedDirectives) :
    d.node ∈ t.directives ∧ d.kind = .directive ∧ d.ancestors = [] ∧ d.owner.isSome = true ∧
      (∀ w ∈ d.node.tokens, w.placedDirectives = []) ∧ d.node.childTokens = d.node.tokens ∧
      d.node.children = .ofTokens d.node.tokens := by
  obtain ⟨⟨m, l⟩, hm, rfl⟩ := List.mem_map.1 h
  have hm := (List.of_mem_zip hm).1
  obtain ⟨hk, n', i', j', ws, rfl⟩ := Lead.mem_directiveNodes hm
  refine ⟨hm, hk, rfl, rfl, ?_, ?_, ?_⟩
  · intro w hw
    rw [Node.tokens, Forest.tokens_ofTokens] at hw
    rw [Token.placedDirectives, Token.directives_of_layOutWords hw]
    rfl
  · rw [Node.childTokens_ofTokens, Node.tokens, Forest.tokens_ofTokens]
  · rw [Node.tokens, Forest.tokens_ofTokens]

theorem Token.placedDirectives_eq_nil {t : Token} (h : t.hasDirective = false) :
    t.placedDirectives = [] := by
  have hf : (t.lexeme.leading.zipIdx.filter fun l => l.1.isDirective) = [] := by
    rw [List.filter_eq_nil_iff]
    intro l hl hd
    have := List.any_eq_false.1 h l.1 (List.fst_mem_of_mem_zipIdx hl)
    exact this hd
  rw [Token.placedDirectives, hf, List.zip_nil_right]
  rfl

theorem Token.map_node_placedDirectives (t : Token) :
    t.placedDirectives.map (·.node) = t.directives := by
  rw [Token.placedDirectives, List.map_map]
  show List.map Prod.fst _ = _
  rw [List.map_fst_zip]
  exact Nat.le_of_eq (Lead.length_directiveNodes _ _ _ _ _)

namespace Forest

@[simp] theorem placedNodes_ofTokens (around : List Node) (ts : List Token) :
    (Forest.ofTokens ts).placedNodes around = ts.flatMap Token.placedDirectives := by
  induction ts with
  | nil => rfl
  | cons t ts ih => rw [Forest.ofTokens, placedNodes, ih]; rfl

end Forest

/-! ## Nodes below nodes -/

namespace PlacedNode

/-- The nodes around the children of a node. -/
def around (p : PlacedNode) : List Node :=
  p.node :: p.ancestors

theorem around_child (p : PlacedNode) (n : Node) : (p.child n).around = n :: p.around := rfl

/-- Walking down visits the nodes that are not directives. -/
theorem below_eq (as : List Node) (f : Forest) :
    descendants.below as f = (f.placedNodes as).filter fun q => q.owner.isNone := by
  induction f generalizing as with
  | nil => rfl
  | token t rest ih =>
      have hd : t.placedDirectives.filter (fun q => q.owner.isNone) = [] := by
        rw [List.filter_eq_nil_iff]
        intro q hq
        rw [Option.isNone_eq_false_iff.2 (Token.mem_placedDirectives hq).2.2.2.1]
        exact Bool.false_ne_true
      rw [descendants.below, Forest.placedNodes, List.filter_append, hd, ih]
      rfl
  | node head children rest ihc ihr =>
      rw [descendants.below, Forest.placedNodes, ihc, ihr]
      simp

theorem descendants_eq_filter (p : PlacedNode) :
    p.descendants = p :: (p.node.children.placedNodes p.around).filter fun q => q.owner.isNone := by
  rw [descendants, below_eq]
  rfl

end PlacedNode

theorem Forest.placedNodes_subset {f : Forest} {as : List Node} {p q : PlacedNode}
    (hp : p ∈ f.placedNodes as) (hq : q ∈ p.node.children.placedNodes p.around) :
    q ∈ f.placedNodes as := by
  induction f generalizing as with
  | nil => cases hp
  | token t rest ih =>
      rw [Forest.placedNodes] at hp ⊢
      rcases List.mem_append.1 hp with hp | hp
      · exfalso
        obtain ⟨-, -, -, -, hw, -, hc⟩ := Token.mem_placedDirectives hp
        rw [hc, Forest.placedNodes_ofTokens, List.mem_flatMap] at hq
        obtain ⟨w, hwm, hq⟩ := hq
        rw [hw w hwm] at hq
        cases hq
      · exact List.mem_append_right _ (ih hp)
  | node head children rest ihc ihr =>
      rw [Forest.placedNodes] at hp ⊢
      rcases List.mem_cons.1 hp with rfl | hp
      · exact List.mem_cons_of_mem _ (List.mem_append_left _ hq)
      · rcases List.mem_append.1 hp with hp | hp
        · exact List.mem_cons_of_mem _ (List.mem_append_left _ (ihc hp))
        · exact List.mem_cons_of_mem _ (List.mem_append_right _ (ihr hp))

namespace Node

theorem placedNodes_subset {n : Node} {p q : PlacedNode} (hp : p ∈ n.placedNodes)
    (hq : q ∈ p.node.children.placedNodes p.around) : q ∈ n.placedNodes := by
  rcases List.mem_cons.1 hp with rfl | hp
  · exact List.mem_cons_of_mem _ hq
  · exact List.mem_cons_of_mem _ (Forest.placedNodes_subset hp hq)

theorem mem_of_mem_descendants {n : Node} {p q : PlacedNode} (hp : p ∈ n.placedNodes)
    (hq : q ∈ p.descendants) : q ∈ n.placedNodes := by
  rw [PlacedNode.descendants_eq_filter] at hq
  rcases List.mem_cons.1 hq with rfl | hq
  · exact hp
  · exact placedNodes_subset hp ((List.mem_filter.1 hq).1)

/-- A walk down from the root meets every node that is not a directive. -/
theorem descendants_eq (n : Node) :
    PlacedNode.descendants { node := n, ancestors := [] } =
      n.placedNodes.filter fun q => q.owner.isNone := by
  rw [PlacedNode.descendants_eq_filter]
  rfl

end Node

/-! ## Tokens and the nodes around them -/

theorem Node.mem_childTokens {n : Node} {t : Token} :
    t ∈ n.childTokens ↔ .token t ∈ n.children.elements := by
  rw [Node.childTokens, List.mem_filterMap]
  constructor
  · rintro ⟨e, he, hx⟩
    cases e with
    | token t => cases hx; exact he
    | node m => cases hx
  · exact fun h => ⟨_, h, rfl⟩

/-- What stands in a node of the text does not stand in a directive. -/
theorem PlacedNode.mem_childTokens_iff {p : PlacedNode} {x : PlacedToken} (ho : p.owner = none) :
    (x.parent = p ∧ x.token ∈ x.parent.node.childTokens ∧
        x.inDirective = x.parent.owner.isSome) ↔
      x.parent = p ∧ .token x.token ∈ p.node.children.elements ∧ x.inDirective = false := by
  refine and_congr_right fun hp => ?_
  rw [hp, Node.mem_childTokens, ho]
  rfl

theorem Token.mem_words_placedDirectives {t : Token} {x : PlacedToken} :
    x ∈ t.placedDirectives.flatMap PlacedNode.words ↔
      x.parent ∈ t.placedDirectives ∧ x.token ∈ x.parent.node.childTokens ∧
        x.inDirective = x.parent.owner.isSome := by
  rw [List.mem_flatMap]
  constructor
  · rintro ⟨d, hd, hx⟩
    obtain ⟨w, hw, rfl⟩ := List.mem_map.1 hx
    obtain ⟨-, -, -, hs, -, hc, -⟩ := Token.mem_placedDirectives hd
    exact ⟨hd, hc ▸ hw, hs.symm⟩
  · rintro ⟨hd, ht, hi⟩
    obtain ⟨-, -, -, hs, -, hc, -⟩ := Token.mem_placedDirectives hd
    refine ⟨x.parent, hd, List.mem_map.2 ⟨x.token, hc ▸ ht, ?_⟩⟩
    obtain ⟨tk, par, flag⟩ := x
    exact congrArg _ (hs.symm.trans hi.symm)

/-- A child token of a node is an entry of the token table below it, and the other entries there
are child tokens of entries of the node table. -/
theorem Forest.mem_placedTokens_iff {f : Forest} {parent : PlacedNode} (ho : parent.owner = none)
    {x : PlacedToken} :
    x ∈ f.placedTokens parent ↔
      (x.parent = parent ∧ .token x.token ∈ f.elements ∧ x.inDirective = false) ∨
      (x.parent ∈ f.placedNodes parent.around ∧ x.token ∈ x.parent.node.childTokens ∧
        x.inDirective = x.parent.owner.isSome) := by
  induction f generalizing parent with
  | nil => simp [placedTokens, elements, placedNodes]
  | token t rest ih =>
      have hx : x = ⟨t, parent, false⟩ ↔
          x.parent = parent ∧ x.token = t ∧ x.inDirective = false := by
        obtain ⟨tk, par, flag⟩ := x
        rw [PlacedToken.mk.injEq]
        exact and_left_comm
      rw [placedTokens, placedNodes, elements, List.mem_append, List.mem_cons, List.mem_append,
        List.mem_cons, Token.mem_words_placedDirectives, hx, ih ho, Element.token.injEq]
      constructor
      · rintro (⟨h, ht⟩ | ⟨h, ht, hi⟩ | ⟨h, ht, hi⟩ | ⟨h, ht⟩)
        · exact .inr ⟨.inl h, ht⟩
        · exact .inl ⟨h, .inl ht, hi⟩
        · exact .inl ⟨h, .inr ht, hi⟩
        · exact .inr ⟨.inr h, ht⟩
      · rintro (⟨h, ht | ht, hi⟩ | ⟨h | h, ht⟩)
        · exact .inr (.inl ⟨h, ht, hi⟩)
        · exact .inr (.inr (.inl ⟨h, ht, hi⟩))
        · exact .inl ⟨h, ht⟩
        · exact .inr (.inr (.inr ⟨h, ht⟩))
  | node head children rest ihc ihr =>
      have hn := PlacedNode.mem_childTokens_iff (p := parent.child ⟨head, children⟩) (x := x) rfl
      rw [placedTokens, placedNodes, elements, List.mem_append, List.mem_cons, List.mem_cons,
        List.mem_append, ihc rfl, ihr ho, PlacedNode.around_child]
      constructor
      · rintro ((h | ⟨h, ht⟩) | (⟨h, ht, hi⟩ | ⟨h, ht⟩))
        · obtain ⟨h, ht⟩ := hn.2 h
          exact .inr ⟨.inl h, ht⟩
        · exact .inr ⟨.inr (.inl h), ht⟩
        · exact .inl ⟨h, .inr ht, hi⟩
        · exact .inr ⟨.inr (.inr h), ht⟩
      · rintro (⟨h, ht | ht, hi⟩ | ⟨h | h | h, ht⟩)
        · cases ht
        · exact .inr (.inl ⟨h, ht, hi⟩)
        · exact .inl (.inl (hn.1 ⟨h, ht⟩))
        · exact .inl (.inr ⟨h, ht⟩)
        · exact .inr (.inr ⟨h, ht⟩)

theorem Node.mem_placedTokens_iff {n : Node} {x : PlacedToken} :
    x ∈ n.placedTokens ↔
      x.parent ∈ n.placedNodes ∧ x.token ∈ x.parent.node.childTokens ∧
        x.inDirective = x.parent.owner.isSome := by
  have hn := PlacedNode.mem_childTokens_iff (p := { node := n, ancestors := [] }) (x := x) rfl
  rw [Node.placedTokens, Forest.mem_placedTokens_iff rfl, Node.placedNodes, List.mem_cons]
  constructor
  · rintro (h | ⟨h, ht⟩)
    · obtain ⟨h, ht⟩ := hn.2 h
      exact ⟨.inl h, ht⟩
    · exact ⟨.inr h, ht⟩
  · rintro ⟨h | h, ht⟩
    · exact .inl (hn.1 ⟨h, ht⟩)
    · exact .inr ⟨h, ht⟩

theorem Language.mem_initializerWords {l : Language} {p : PlacedNode} {x : PlacedToken} :
    x ∈ l.initializerWords p ↔
      ∃ c ∈ p.descendants, c.kind = .constructorDeclaration ∧
        ∃ i ∈ c.descendants, i.kind = .constructorInitializer ∧
          x ∈ i.childTokens ∧ l.isInitializerWord x = true := by
  simp only [initializerWords, List.mem_flatMap, List.mem_filter, beq_iff_eq, and_assoc]

theorem Node.mem_placedTokens_of_mem_initializerWords {l : Language} {n : Node} {x : PlacedToken}
    (h : x ∈ l.initializerWords { node := n, ancestors := [] }) : x ∈ n.placedTokens := by
  obtain ⟨c, hc, -, i, hi, -, hx, -⟩ := Language.mem_initializerWords.1 h
  have hn := mem_of_mem_descendants (mem_of_mem_descendants List.mem_cons_self hc) hi
  obtain ⟨w, hw, rfl⟩ := List.mem_map.1 hx
  exact Node.mem_placedTokens_iff.2 ⟨hn, hw, rfl⟩

end Xref
