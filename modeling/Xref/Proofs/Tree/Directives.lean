import Xref.Proofs.Tree.Children
import Xref.Proofs.Tree.Lossless

/-!
# Directives and the trivia that they are

A directive is a piece of trivia of a token, and it is a node of its own. The two know each other:
the piece has the number of the node, and the node has the number of the token and the place of the
piece in front of it (`Token.exists_piece`). The numbers that pieces have are those of the
directives, each once and in order (`Tree.links_tokens`), so no piece has the directive of another,
and parsers make no directives by themselves (`Tree.kind_eq_directive_iff`).
-/

namespace Xref

theorem Span.eq_of_bounds {a b : Span} (hs : a.start = b.start) (he : a.stop = b.stop) : a = b := by
  cases a
  cases b
  cases hs
  cases he
  rfl

/-! ## A piece and its node -/

namespace Lead

variable {n i j m k : Nat} {ls : List Lead} {d : Node} {p : Lead}

theorem fullSpan_directive (n i j : Nat) (ws : List Word) :
    (Node.mk ⟨i, .directive, n⟩ (.ofTokens (Token.layOutWords n j i ws))).fullSpan =
      .ofSize n (Lead.directive ws).source.size := by
  obtain ⟨hs, he⟩ := (Token.tiled_layOutWords n j i ws).fullSpan (h := ⟨i, .directive, n⟩)
  exact Span.eq_of_bounds hs he

/-- The node made of a piece goes with the piece laid out at its place: one has the number and the
extent of the other. -/
theorem exists_piece (h : (d, p, k) ∈
    (directiveNodes n i j ls).zip ((ls.zipIdx m).filter fun l => l.1.isDirective)) :
    ∃ k', k = m + k' ∧ ∃ e, (Piece.layOutLead n i ls)[k']? = some e ∧ e.kind = .directive ∧
      e.node = some d.id ∧ e.span = d.fullSpan ∧
        ∀ s : SourceText, s.chars.At n (sources ls) → s.slice e.span = p.source := by
  -- a piece moves the offset, and a directive moves the two numbers, so all of them vary
  induction ls generalizing n i j m with
  | nil => cases h
  | cons q ls ih =>
      cases q with
      | trivia t =>
          obtain ⟨k', hk, e, he, hd, hn, hs, ht⟩ := ih h
          refine ⟨k' + 1, by omega, e, he, hd, hn, hs, fun s ha => ht s ?_⟩
          rw [sources_cons] at ha
          exact ha.right
      | directive ws =>
          rcases List.mem_cons.1 h with h | h
          · simp only [Prod.mk.injEq] at h
            obtain ⟨rfl, rfl, rfl⟩ := h
            refine ⟨0, rfl, _, rfl, rfl, rfl, (fullSpan_directive n i j ws).symm, fun s ha => ?_⟩
            rw [sources_cons] at ha
            exact ha.left.slice
          · obtain ⟨k', hk, e, he, hd, hn, hs, ht⟩ := ih h
            refine ⟨k' + 1, by omega, e, he, hd, hn, hs, fun s ha => ht s ?_⟩
            rw [sources_cons] at ha
            exact ha.right

end Lead

namespace Token

variable {t : Token} {d : PlacedNode}

theorem exists_piece (h : d ∈ t.placedDirectives) :
    ∃ (k : Nat) (e : Piece) (text : Text), t.leading[k]? = some e ∧ e.kind = .directive ∧
      e.node = some d.id ∧ e.span = d.node.fullSpan ∧ d.owner = some ⟨text, t.id, k⟩ ∧
        ∀ s : SourceText, s.chars.At t.start t.lexeme.source → s.slice e.span = text := by
  obtain ⟨⟨n, p, k⟩, hm, rfl⟩ := List.mem_map.1 h
  obtain ⟨k', hk, e, he, hd, hn, hs, ht⟩ := Lead.exists_piece hm
  obtain rfl : k = k' := hk.trans (Nat.zero_add _)
  exact ⟨k, e, p.source, he, hd, hn, hs, rfl, fun s ha => ht s ha.left.left⟩

end Token

/-! ## All pieces and all directives -/

namespace Piece

theorem nodes_layOut (n : Nat) (ts : List Trivia) : (layOut n ts).filterMap node = [] := by
  induction ts generalizing n with
  | nil => rfl
  | cons t ts ih => exact ih _

theorem nodes_layOutLead (n i j : Nat) (ls : List Lead) :
    (layOutLead n i ls).filterMap node = (Lead.directiveNodes n i j ls).map Node.id := by
  induction ls generalizing n i j with
  | nil => rfl
  | cons p ls ih =>
      cases p with
      | trivia t => exact ih _ _ _
      | directive ws => exact congrArg (i :: ·) (ih _ _ _)

end Piece

/-- The numbers of nodes that the trivia of a token have. -/
def Token.links (t : Token) : List Nat :=
  (t.leading ++ t.trailing).filterMap Piece.node

theorem Token.links_eq (t : Token) : t.links = t.directives.map Node.id := by
  rw [links, List.filterMap_append, trailing, Piece.nodes_layOut, List.append_nil]
  exact Piece.nodes_layOutLead _ _ _ _

theorem Token.links_words (t : Token) :
    (t.placedDirectives.flatMap PlacedNode.words).flatMap (·.token.links) = [] := by
  refine List.flatMap_eq_nil_iff.2 fun x hx => ?_
  obtain ⟨d, hd, hx⟩ := List.mem_flatMap.1 hx
  obtain ⟨w, hw, rfl⟩ := List.mem_map.1 hx
  have hn := (Token.mem_placedDirectives hd).2.2.2.2.1 w hw
  rw [Token.links_eq, ← Token.map_node_placedDirectives, hn]
  rfl

theorem Forest.links_placedTokens (f : Forest) (parent : PlacedNode) (as : List Node) :
    (f.placedTokens parent).flatMap (·.token.links) =
      ((f.placedNodes as).filter fun p => p.owner.isSome).map PlacedNode.id := by
  induction f generalizing parent as with
  | nil => rfl
  | token t rest ih =>
      have hd : t.placedDirectives.filter (fun p => p.owner.isSome) = t.placedDirectives :=
        List.filter_eq_self.2 fun d hd => (Token.mem_placedDirectives hd).2.2.2.1
      rw [placedTokens, placedNodes, List.flatMap_append, Token.links_words, List.flatMap_cons,
        ih parent as, List.filter_append, List.map_append, hd, Token.links_eq,
        ← Token.map_node_placedDirectives, List.map_map]
      rfl
  | node head c rest ihc ihr =>
      rw [placedTokens, placedNodes, List.flatMap_append, ihc _ (⟨head, c⟩ :: as), ihr parent as,
        List.filter_cons_of_neg Bool.false_ne_true, List.filter_append, List.map_append]

namespace Tree

/-- The pieces of trivia have the numbers of the directives, each once and in order. -/
theorem links_tokens (t : Tree) : t.tokens.toList.flatMap (·.token.links) =
    (t.nodes.toList.filter fun p => p.owner.isSome).map PlacedNode.id := by
  rw [t.tokens_eq, t.nodes_eq]
  show (t.root.children.placedTokens _).flatMap _ = _
  rw [Forest.links_placedTokens _ _ [t.root], Node.placedNodes,
    List.filter_cons_of_neg Bool.false_ne_true]

end Tree

/-! ## Directives are no nodes of an outline -/

theorem Outline.kind_ne_directive {P : Promise} {x : List Opened} {o : Outline} {n : Tally}
    {as : List Node} {p : PlacedNode} (hf : o.Formed P x) (hp : p ∈ (o.place n).placedNodes as)
    (ho : p.owner = none) : p.kind ≠ .directive := by
  have hd {t : Token} (h : p ∈ t.placedDirectives) : False := by
    have h := (Token.mem_placedDirectives h).2.2.2.1
    rw [ho] at h
    cases h
  induction o generalizing n as x with
  | nil => cases hp
  | token l r ih =>
      rcases List.mem_append.1 hp with hp | hp
      · exact (hd hp).elim
      · exact ih hf hp
  | missing k r ih =>
      rcases List.mem_append.1 hp with hp | hp
      · exact (hd hp).elim
      · exact ih hf.2 hp
  | node k c r ihc ihr =>
      obtain ⟨⟨name, hh, hc⟩, hr⟩ := hf
      rcases List.mem_cons.1 hp with rfl | hp
      · -- this is the only case about parsers: they close no node as a directive
        intro hk
        obtain rfl : k = .directive := hk
        exact hh.admits
      · rcases List.mem_append.1 hp with hp | hp
        · exact ihc hc hp
        · exact ihr hr hp

/-! ## The tree of a text -/

namespace Tree

variable {l : Language} {s : SourceText} {d : PlacedNode}

theorem kind_eq_directive_iff (hd : d ∈ (parse l s).nodes) :
    d.kind = .directive ↔ d.owner ≠ none := by
  constructor
  · intro hk ho
    obtain ⟨o, hr, -, hf⟩ := exists_outline l s
    rw [mem_nodes_iff, hr] at hd
    rcases List.mem_cons.1 hd with rfl | hd
    · cases hk
    · exact Outline.kind_ne_directive hf hd ho hk
  · intro ho
    obtain ⟨x, -, -, hd, -⟩ := exists_token_of_owner hd ho
    exact (Token.mem_placedDirectives hd).2.1

/-- A directive is one piece of trivia of a token behind its words, and the two know each other. -/
theorem exists_piece (hd : d ∈ (parse l s).nodes) (ho : d.owner ≠ none) :
    ∃ x ∈ (parse l s).tokens, ∃ k e, x.token.leading[k]? = some e ∧ e.kind = .directive ∧
      e.node = some d.id ∧ e.span = d.node.fullSpan ∧
      d.owner = some ⟨s.slice e.span, x.token.id, k⟩ ∧
      ∀ w ∈ d.words, w ∈ (parse l s).tokens ∧ w.token.id < x.token.id := by
  obtain ⟨x, hx, hi, hdx, hw⟩ := exists_token_of_owner hd ho
  obtain ⟨k, e, text, he, hk, hn, hs, hown, ht⟩ := Token.exists_piece hdx
  refine ⟨x, hx, k, e, he, hk, hn, hs, ?_, fun w hwd => ?_⟩
  · rw [ht s (at_parse hx hi), hown]
  · have hwm : w ∈ x.token.placedDirectives.flatMap PlacedNode.words :=
      List.mem_flatMap.2 ⟨d, hdx, hwd⟩
    have hord := List.Pairwise.sublist hw.sublist (inOrder_parse l s)
    refine ⟨Array.mem_toList_iff.1 (hw.subset (List.mem_append_left _ hwm)), ?_⟩
    exact ((List.pairwise_append.1 hord).2.2 w hwm x List.mem_cons_self).1

end Tree

end Xref
