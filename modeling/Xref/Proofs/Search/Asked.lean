import Xref.Proofs.Search.Walk
import Xref.Proofs.Tree.Parse

/-!
# What a walk asks about

A walk that starts at a node asks about the tokens below it, each behind the words of its
directives (`Visit.map_token_asked_node`). No node below a node is a directive, not even where the
node itself is one, so what the walk asks about is a stretch of the table of tokens
(`Forest.asked_infix`), and everything about order and repeats is a matter of the table.
-/

namespace Xref

open Visit

namespace Visit

theorem map_token_asked_node (p : PlacedNode) :
    (asked [.node p]).map (·.token) = p.node.tokens.flatMap Token.unpacked := by
  have h (f : Forest) : ((f.elements.map (ofElement p)).flatMap tokens).map (·.token) =
      f.tokens.flatMap Token.unpacked := by
    induction f with
    | nil => rfl
    | token t rest ih =>
        rw [Forest.elements, List.map_cons, List.flatMap_cons, List.map_append, ih, ofElement,
          tokens, List.map_append, Token.directiveWords, Token.map_token_words, Forest.tokens,
          List.flatMap_cons]
        rfl
    | node head c rest _ ih =>
        rw [Forest.elements, List.map_cons, List.flatMap_cons, List.map_append, ih, ofElement,
          tokens, Forest.map_token_placedTokens, Forest.tokens, List.flatMap_append]
        rfl
  rw [asked_node]
  exact h p.node.children

/-- Below a directive there are its words, which have no directives. -/
theorem asked_directive {t : Token} {d : PlacedNode} (hd : d ∈ t.placedDirectives) :
    asked [.node d] = d.words := by
  obtain ⟨-, -, -, ho, hw, -, hc⟩ := Token.mem_placedDirectives hd
  have ht (w : Token) (h : w ∈ d.node.tokens) :
      tokens (ofElement d (.token w)) = [⟨w, d, true⟩] := by
    rw [ofElement, tokens, Token.directiveWords, hw w h, ho]
    rfl
  rw [asked_node, children, Node.elements, hc, Forest.elements_ofTokens, List.map_map,
    List.flatMap_map, PlacedNode.words, ← List.flatMap_pure_eq_map]
  exact List.flatMap_congr ht

end Visit

/-- What a walk asks about from a node of the table is a stretch of the table of tokens. -/
theorem Forest.asked_infix {f : Forest} {parent p : PlacedNode}
    (hp : p ∈ f.placedNodes parent.around) : asked [.node p] <:+: f.placedTokens parent := by
  induction f generalizing parent with
  | nil => cases hp
  | token t rest ih =>
      rw [placedTokens]
      rcases List.mem_append.1 hp with hp | hp
      · obtain ⟨ds, es, hd⟩ := List.append_of_mem hp
        rw [asked_directive hp, hd, List.flatMap_append, List.flatMap_cons]
        exact (List.infix_append' _ _ _).trans (List.prefix_append _ _).isInfix
      · exact (ih hp).trans ((List.suffix_cons _ _).trans (List.suffix_append _ _)).isInfix
  | node head c rest ihc ihr =>
      rw [placedTokens]
      rcases List.mem_cons.1 hp with rfl | hp
      · rw [asked_node, flatMap_tokens_children rfl]
        exact (List.prefix_append _ _).isInfix
      · rcases List.mem_append.1 hp with hp | hp
        · have hc : asked [.node p] <:+: c.placedTokens (parent.child ⟨head, c⟩) := ihc hp
          exact hc.trans (List.prefix_append _ _).isInfix
        · exact (ihr hp).trans (List.suffix_append _ _).isInfix

namespace Tree

theorem asked_infix {t : Tree} {p : PlacedNode} (hp : p ∈ t.nodes) :
    asked [.node p] <:+: t.tokens.toList := by
  rw [t.tokens_eq]
  rcases List.mem_cons.1 (mem_nodes_iff.1 hp) with rfl | hp
  · rw [asked_node, flatMap_tokens_children rfl]
    exact List.infix_rfl
  · exact Forest.asked_infix hp

/-- A walk asks about the tokens below a node and the words of their directives, about each once and
in the order of the table, and keeps those that match. From the root it asks about all tokens. -/
theorem treeWalk_asks {l : Language} {s : SourceText} {p : PlacedNode} (hp : p ∈ (parse l s).nodes)
    (m : Comparison) {name : Text} (hn : name ≠ []) :
    let t := parse l s
    let xs := asked [.node p]
    p.treeWalk m name false = .ok (xs.filter fun x => x.token.matches m name) ∧
    xs.map (·.token) = p.node.tokens.flatMap Token.unpacked ∧
    xs <:+: t.tokens.toList ∧
    xs.Pairwise (fun x y => x.token.id < y.token.id) ∧
    t.placedRoot.treeWalk m name false =
      .ok (t.tokens.toList.filter fun x => x.token.matches m name) := by
  intro t xs
  have hi : xs <:+: t.tokens.toList := asked_infix hp
  have hw : p.treeWalk m name false = .ok (xs.filter fun x => x.token.matches m name) := by
    rw [PlacedNode.treeWalk, if_neg hn, walk_eq_filter_asked]
  have ho : t.tokens.toList.Pairwise fun x y => x.token.id < y.token.id :=
    List.Pairwise.imp And.left (inOrder_parse l s)
  exact ⟨hw, map_token_asked_node p, hi, ho.sublist hi.sublist, t.treeWalk_placedRoot m hn⟩

theorem treeWalk_asks_in_directive :
    let s := SourceText.ofText "#if A\nA;".toList 0
    let t := parse .csharp s
    ∃ p ∈ t.nodes, p.kind = .directive ∧ ['A'] ≠ [] ∧
      let xs := asked [.node p]
      p.treeWalk .ordinal ['A'] false = .ok (xs.filter fun x => x.token.matches .ordinal ['A']) ∧
      xs.map (·.token) = p.node.tokens.flatMap Token.unpacked ∧
      xs <:+: t.tokens.toList ∧
      xs.Pairwise (fun x y => x.token.id < y.token.id) ∧
      t.placedRoot.treeWalk .ordinal ['A'] false =
        .ok (t.tokens.toList.filter fun x => x.token.matches .ordinal ['A']) := by
  intro s t
  have h : t.nodes.toList.any (fun p => p.kind == .directive) = true := by
    decide +kernel
  obtain ⟨p, hp, hk⟩ := List.any_eq_true.1 h
  have hp : p ∈ t.nodes := Array.mem_toList_iff.1 hp
  have hn : ['A'] ≠ [] := List.cons_ne_nil _ _
  exact ⟨p, hp, eq_of_beq hk, hn, treeWalk_asks hp .ordinal hn⟩

end Tree

end Xref
