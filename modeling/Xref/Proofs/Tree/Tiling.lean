import Xref.Proofs.Tree.Parse

/-!
# Full spans tile

With its trivia every token begins where the one before it ends, and a node is opened where the
next token will begin. `Forest.Tiled` says so of a forest between two offsets. An outline in its
place has this property (`Outline.tiled_place`), and so have the words of a directive.

The full span of a node is made in another way: it covers the children that take up room and passes
over the others, and only a node without such children falls back on where it was opened. The two
ways agree (`Forest.Tiled.fills`), since a child that is passed over stops where it starts. So the
children of a node tile its full span, empty ones included (`Forest.Tiled.tile_elements`), and of
two nodes either one lies in the other or one lies behind the other (`Node.Arranged.cases`).
-/

namespace Xref

/-! ## Spans without a gap -/

/-- The spans follow each other without a gap from `x` to `y`. -/
def Span.Tile (x : Nat) : List Span → Nat → Prop
  | [], y => x = y
  | a :: as, y => a.start = x ∧ Span.Tile a.stop as y

namespace Piece

theorem tile_layOut (n : Nat) (ts : List Trivia) :
    Span.Tile n ((layOut n ts).map span) (n + (Trivia.sources ts).size) := by
  induction ts generalizing n with
  | nil => rfl
  | cons t ts ih =>
      have hs : (Trivia.sources (t :: ts)).size = t.text.size + (Trivia.sources ts).size :=
        Text.size_append _ _
      rw [hs, ← Nat.add_assoc]
      exact ⟨rfl, ih _⟩

theorem tile_layOutLead (n i : Nat) (ls : List Lead) :
    Span.Tile n ((layOutLead n i ls).map span) (n + (Lead.sources ls).size) := by
  induction ls generalizing n i with
  | nil => rfl
  | cons p ls ih =>
      rw [Lead.sources_cons, Text.size_append, ← Nat.add_assoc]
      cases p with
      | trivia t => exact ⟨rfl, ih _ _⟩
      | directive ws => exact ⟨rfl, ih _ _⟩

end Piece

namespace Token

variable (t : Token)

theorem tile_leading : Span.Tile t.fullSpan.start (t.leading.map Piece.span) t.span.start :=
  Piece.tile_layOutLead _ _ _

theorem stop_fullSpan :
    t.fullSpan.stop = t.span.stop + (Trivia.sources t.lexeme.trailing).size := by
  show t.start + t.lexeme.source.size = t.start + _ + _ + _
  rw [Lexeme.source, Text.size_append, Text.size_append]
  omega

theorem tile_trailing : Span.Tile t.span.stop (t.trailing.map Piece.span) t.fullSpan.stop := by
  rw [stop_fullSpan]
  exact Piece.tile_layOut _ _

end Token

/-! ## Forests without a gap -/

/-- The full span of a child. -/
def Element.fullSpan : Element → Span
  | token t => t.fullSpan
  | node n => n.fullSpan

/-- An extent that reaches from `x` to `y`; where nothing takes up room, `x` is `y`. -/
def Extent.Fills (x y : Nat) : Option Extent → Prop
  | none => x = y
  | some e => e.full.start = x ∧ e.full.stop = y

theorem Extent.Fills.le {x y : Nat} {e : Option Extent} (h : Fills x y e) : x ≤ y := by
  cases e with
  | none => exact Nat.le_of_eq h
  | some e =>
      obtain ⟨rfl, rfl⟩ := h
      exact e.full.start_le_stop

theorem Extent.Fills.merge {x y z : Nat} {d e : Option Extent} (h : Fills x z d)
    (h' : Fills z y e) : Fills x y (Option.merge cover d e) := by
  have hxz := h.le
  have hzy := h'.le
  match d, e with
  | none, none => exact h.trans h'
  | none, some e =>
      obtain rfl : x = z := h
      exact h'
  | some d, none =>
      obtain rfl : z = y := h'
      exact h
  | some d, some e =>
      obtain ⟨rfl, rfl⟩ := h
      obtain ⟨hs, rfl⟩ := h'
      show min d.full.start e.full.start = _ ∧
        max (min d.full.start e.full.start) (max d.full.stop e.full.stop) = _
      omega

theorem Token.fills_extent? (t : Token) :
    Extent.Fills t.fullSpan.start t.fullSpan.stop t.extent? := by
  unfold extent?
  split
  · next h => exact Span.isEmpty_iff.1 h
  · exact ⟨rfl, rfl⟩

namespace Forest

/-- The tokens fill the text from `x` to `y`, and every node was opened where what is below it
begins. -/
def Tiled (x : Nat) : Forest → Nat → Prop
  | nil, y => x = y
  | token t rest, y => t.start = x ∧ Tiled t.fullSpan.stop rest y
  | node head children rest, y =>
    head.start = x ∧ ∃ z, Tiled x children z ∧ Tiled z rest y

namespace Tiled

variable {x y : Nat} {f : Forest} {h : NodeHead}

/-- Nothing is lost by passing over what takes up no room. -/
theorem fills (hf : Tiled x f y) : Extent.Fills x y f.extent? := by
  induction f generalizing x y with
  | nil => exact hf
  | token t rest ih =>
      obtain ⟨rfl, hr⟩ := hf
      exact t.fills_extent?.merge (ih hr)
  | node head children rest ihc ihr =>
      obtain ⟨-, z, hc, hr⟩ := hf
      exact (ihc hc).merge (ihr hr)

theorem le (hf : Tiled x f y) : x ≤ y :=
  hf.fills.le

/-- The full span of a node reaches over all its children. -/
theorem fullSpan (hf : Tiled h.start f y) :
    (Node.mk h f).fullSpan.start = h.start ∧ (Node.mk h f).fullSpan.stop = y := by
  have he := hf.fills
  show (f.extent?.getD (.point h.start)).full.start = _ ∧
    (f.extent?.getD (.point h.start)).full.stop = _
  cases hx : f.extent? with
  | none =>
      rw [hx] at he
      exact ⟨rfl, he⟩
  | some e =>
      rw [hx] at he
      exact he

theorem tile_elements (hf : Tiled x f y) :
    Span.Tile x (f.elements.map Element.fullSpan) y := by
  induction f generalizing x y with
  | nil => exact hf
  | token t rest ih => exact ⟨hf.1, ih hf.2⟩
  | node head children rest _ ihr =>
      obtain ⟨rfl, z, hc, hr⟩ := hf
      obtain ⟨hs, he⟩ := hc.fullSpan
      refine ⟨hs, ?_⟩
      show Span.Tile (Node.mk head children).fullSpan.stop _ _
      rw [he]
      exact ihr hr

end Tiled

end Forest

/-! ## Nodes in document order -/

/-- What is below the node fills its full span. -/
def Node.Tiled (n : Node) : Prop :=
  n.children.Tiled n.fullSpan.start n.fullSpan.stop

theorem Forest.Tiled.node {h : NodeHead} {f : Forest} {y : Nat} (hf : f.Tiled h.start y) :
    (Node.mk h f).Tiled := by
  obtain ⟨hs, he⟩ := hf.fullSpan
  rw [Node.Tiled, hs, he]
  exact hf

/-- Nodes in document order between `x` and `y`. Each is filled by what is below it, and each lies
around a later one or before it. -/
structure Node.Arranged (x y : Nat) (ns : List Node) : Prop where
  tiled : ∀ n ∈ ns, n.Tiled
  within : ∀ n ∈ ns, x ≤ n.fullSpan.start ∧ n.fullSpan.stop ≤ y
  nested : ns.Pairwise fun m n =>
    m.fullSpan.encloses n.fullSpan = true ∨ m.fullSpan.stop ≤ n.fullSpan.start

namespace Node.Arranged

variable {w x y z : Nat} {h : NodeHead} {f : Forest} {ms ns : List Node}

theorem nil (x y : Nat) : Arranged x y [] :=
  ⟨List.forall_mem_nil _, List.forall_mem_nil _, .nil⟩

theorem mono (hn : Arranged x y ns) (hw : w ≤ x) (hz : y ≤ z) : Arranged w z ns where
  tiled := hn.tiled
  within n hm := ⟨Nat.le_trans hw (hn.within n hm).1, Nat.le_trans (hn.within n hm).2 hz⟩
  nested := hn.nested

theorem append (hm : Arranged x z ms) (hn : Arranged z y ns) (hx : x ≤ z) (hy : z ≤ y) :
    Arranged x y (ms ++ ns) where
  tiled := List.forall_mem_append.2 ⟨hm.tiled, hn.tiled⟩
  within := List.forall_mem_append.2
    ⟨(hm.mono (Nat.le_refl x) hy).within, (hn.mono hx (Nat.le_refl y)).within⟩
  nested := List.pairwise_append.2 ⟨hm.nested, hn.nested, fun m hm' n hn' =>
    .inr (Nat.le_trans (hm.within m hm').2 (hn.within n hn').1)⟩

/-- A node in front of the nodes below it. -/
theorem cons (hf : f.Tiled h.start y) (hn : Arranged h.start y ns) :
    Arranged h.start y (⟨h, f⟩ :: ns) := by
  obtain ⟨hs, he⟩ := hf.fullSpan
  refine ⟨List.forall_mem_cons.2 ⟨hf.node, hn.tiled⟩,
    List.forall_mem_cons.2 ⟨⟨Nat.le_of_eq hs.symm, Nat.le_of_eq he⟩, hn.within⟩,
    List.pairwise_cons.2 ⟨fun n hm => .inl (Span.encloses_iff.2 ?_), hn.nested⟩⟩
  rw [hs, he]
  exact hn.within n hm

theorem cases (hn : Arranged x y ns) {m n : Node} (hm : m ∈ ns) (hn' : n ∈ ns) :
    m.fullSpan.encloses n.fullSpan = true ∨ n.fullSpan.encloses m.fullSpan = true ∨
      m.fullSpan.stop ≤ n.fullSpan.start ∨ n.fullSpan.stop ≤ m.fullSpan.start := by
  obtain ⟨i, hi, rfl⟩ := List.getElem_of_mem hm
  obtain ⟨j, hj, rfl⟩ := List.getElem_of_mem hn'
  rcases Nat.lt_trichotomy i j with h | rfl | h
  · rcases List.pairwise_iff_getElem.1 hn.nested i j hi hj h with he | hs
    · exact .inl he
    · exact .inr (.inr (.inl hs))
  · exact .inl (Span.encloses_iff.2 ⟨Nat.le_refl _, Nat.le_refl _⟩)
  · rcases List.pairwise_iff_getElem.1 hn.nested j i hj hi h with he | hs
    · exact .inr (.inl he)
    · exact .inr (.inr (.inr hs))

end Node.Arranged

theorem Token.tiled_layOutWords (n i k : Nat) (ws : List Word) :
    (Forest.ofTokens (layOutWords n i k ws)).Tiled n
      (n + Text.size (ws.flatMap Word.source)) := by
  induction ws generalizing n i with
  | nil => rfl
  | cons w ws ih =>
      refine ⟨rfl, ?_⟩
      show Forest.Tiled (n + (Lexeme.ofWord w).source.size) _ _
      rw [Lexeme.source_ofWord, List.flatMap_cons, Text.size_append, ← Nat.add_assoc]
      exact ih _ _

theorem Lead.arranged_directiveNodes (n i j : Nat) (ls : List Lead) :
    Node.Arranged n (n + (sources ls).size) (directiveNodes n i j ls) := by
  induction ls generalizing n i j with
  | nil => exact .nil _ _
  | cons p ls ih =>
      rw [sources_cons, Text.size_append, ← Nat.add_assoc]
      have hn : n ≤ n + p.source.size := Nat.le_add_right _ _
      have hs : n + p.source.size ≤ n + p.source.size + (sources ls).size := Nat.le_add_right _ _
      cases p with
      | trivia t => exact (ih _ i j).mono hn (Nat.le_refl _)
      | directive ws =>
          have hw := Node.Arranged.cons (h := ⟨i, .directive, n⟩)
            (Token.tiled_layOutWords n j i ws) (.nil _ _)
          exact hw.append (ih _ _ _) hn hs

theorem Token.arranged_directives (t : Token) :
    Node.Arranged t.fullSpan.start t.span.start t.directives :=
  Lead.arranged_directiveNodes _ _ _ _

/-- The nodes of a forest, those of directives included, are arranged. -/
theorem Forest.Tiled.arranged {f : Forest} {x y : Nat} (hf : f.Tiled x y) (as : List Node) :
    Node.Arranged x y ((f.placedNodes as).map (·.node)) := by
  induction f generalizing x y as with
  | nil => exact .nil _ _
  | token t rest ih =>
      obtain ⟨rfl, hr⟩ := hf
      rw [placedNodes, List.map_append, Token.map_node_placedDirectives]
      have hd : t.span.start ≤ t.fullSpan.stop := by
        rw [t.stop_fullSpan]
        exact Nat.le_trans t.span.start_le_stop (Nat.le_add_right _ _)
      have hd := t.arranged_directives.mono (Nat.le_refl _) hd
      exact hd.append (ih hr as) t.fullSpan.start_le_stop hr.le
  | node head children rest ihc ihr =>
      obtain ⟨rfl, z, hc, hr⟩ := hf
      rw [placedNodes, List.map_cons, List.map_append]
      exact (Node.Arranged.cons hc (ihc hc _)).append (ihr hr as) hc.le hr.le

/-! ## The tree of a text -/

/-- An outline in its place has no gap. -/
theorem Outline.tiled_place (o : Outline) (n : Tally) :
    (o.place n).Tiled n.offset (o.after n).offset := by
  induction o generalizing n with
  | nil => rfl
  | token l r ih => exact ⟨rfl, ih (n.afterToken l)⟩
  | missing k r ih => exact ⟨rfl, ih (n.afterToken (.absent k))⟩
  | node k c r ihc ihr => exact ⟨rfl, _, ihc (afterOpen n), ihr (c.after (afterOpen n))⟩

namespace Tree

theorem tiled_parse (l : Language) (s : SourceText) : (parse l s).root.children.Tiled 0 s.size := by
  obtain ⟨o, hr, hl, -⟩ := exists_outline l s
  have ho := o.tiled_place ⟨1, 0, 0⟩
  rw [o.offset_after, hl, LexemeSeq.sources_all, Nat.zero_add] at ho
  rw [hr]
  exact ho

theorem arranged_parse (l : Language) (s : SourceText) :
    Node.Arranged 0 s.size ((parse l s).nodes.toList.map (·.node)) := by
  have ht := tiled_parse l s
  rw [nodes_eq]
  exact Node.Arranged.cons (h := (parse l s).root.head) ht (ht.arranged _)

/-- The children of every node tile its full span, the trivia of every token tile what its full span
adds to its span, and of two nodes one lies in the other or one lies behind the other. -/
theorem fullSpans_tile (l : Language) (s : SourceText) :
    let t := parse l s
    (∀ p ∈ t.nodes, Span.Tile p.node.fullSpan.start (p.node.elements.map Element.fullSpan)
      p.node.fullSpan.stop) ∧
    (∀ x ∈ t.tokens,
      Span.Tile x.token.fullSpan.start (x.token.leading.map Piece.span) x.token.span.start ∧
      Span.Tile x.token.span.stop (x.token.trailing.map Piece.span) x.token.fullSpan.stop) ∧
    ∀ p ∈ t.nodes, ∀ q ∈ t.nodes,
      p.node.fullSpan.encloses q.node.fullSpan = true ∨
      q.node.fullSpan.encloses p.node.fullSpan = true ∨
      p.node.fullSpan.stop ≤ q.node.fullSpan.start ∨
      q.node.fullSpan.stop ≤ p.node.fullSpan.start := by
  intro t
  have ha : Node.Arranged 0 s.size (t.nodes.toList.map (·.node)) := arranged_parse l s
  have hm {p : PlacedNode} (hp : p ∈ t.nodes) : p.node ∈ t.nodes.toList.map (·.node) :=
    List.mem_map_of_mem (Array.mem_toList_iff.2 hp)
  refine ⟨fun p hp => ?_, fun x _ => ⟨x.token.tile_leading, x.token.tile_trailing⟩,
    fun p hp q hq => ?_⟩
  · have hp := ha.tiled p.node (hm hp)
    exact hp.tile_elements
  · exact ha.cases (hm hp) (hm hq)

end Tree

end Xref
