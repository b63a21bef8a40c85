import Xref.Proofs.Lexeme.Plain
import Xref.Proofs.Tree.Tiling

/-!
# Nothing of the text is lost

A tree keeps offsets, and what a token or a piece of trivia says is read in the text between them.
Read in document order the tokens of a tree give back the text (`Tree.parse_lossless`): the lexemes
of a text make it up, the tree has each of them once and in order, and each stands in the text where
its token says.

`Text.At` is what is carried from the whole text down to single pieces. A text that stands at an
offset is cut in two, and both parts stand where the offsets of tokens, words and pieces put them,
since all of these are laid out by adding sizes.
-/

namespace Xref

/-! ## Pieces of text in their places -/

namespace Text

/-- The piece stands in the text at an offset. -/
def At (whole : Text) (n : Nat) (a : Text) : Prop :=
  ∃ pre post, whole = pre ++ a ++ post ∧ pre.size = n

variable {whole a b : Text} {n : Nat}

theorem At.left (h : whole.At n (a ++ b)) : whole.At n a := by
  obtain ⟨pre, post, rfl, hn⟩ := h
  exact ⟨pre, b ++ post, by simp only [List.append_assoc], hn⟩

theorem At.right (h : whole.At n (a ++ b)) : whole.At (n + a.size) b := by
  obtain ⟨pre, post, rfl, rfl⟩ := h
  exact ⟨pre ++ a, post, by simp only [List.append_assoc], size_append pre a⟩

/-- What stands at an offset is read there. -/
theorem At.slice (h : whole.At n a) : whole.slice n (n + a.size) = a := by
  obtain ⟨pre, post, hw, hn⟩ := h
  have hd : dropBytes? n whole = some (a ++ post) :=
    dropBytes?_eq_some_iff.2 ⟨pre, by rw [hw, List.append_assoc], hn⟩
  have ht : takeBytes? (n + a.size - n) (a ++ post) = some a :=
    takeBytes?_eq_some_iff.2 ⟨post, rfl, (Nat.add_sub_cancel_left n a.size).symm⟩
  rw [Text.slice, if_pos (Nat.le_add_right n a.size), hd, Option.bind_some, ht]
  rfl

end Text

/-- The lexemes of a text stand where it begins. -/
theorem LexemeSeq.at_ofText (l : Language) (s : Text) :
    s.At 0 (Lexeme.sources (ofText l s).all) := by
  rw [sources_all]
  exact ⟨[], [], (List.append_nil s).symm, rfl⟩

namespace SourceText

/-- What the text says at pieces of trivia. -/
def slices (s : SourceText) (ps : List Piece) : Text :=
  ps.flatMap fun p => s.slice p.span

/-- What the text says at the leading trivia of a token, at the token and at its trailing trivia. -/
def sourceOf (s : SourceText) (t : Token) : Text :=
  s.slices t.leading ++ s.slice t.span ++ s.slices t.trailing

variable {s : SourceText} {n i : Nat}

theorem slices_layOut {ts : List Trivia} (h : s.chars.At n (Trivia.sources ts)) :
    s.slices (Piece.layOut n ts) = Trivia.sources ts := by
  induction ts generalizing n with
  | nil => rfl
  | cons t ts ih =>
      have h : s.chars.At n (t.text ++ Trivia.sources ts) := h
      show s.chars.slice n (n + t.text.size) ++ s.slices (Piece.layOut _ ts) = _
      rw [h.left.slice, ih h.right]
      rfl

theorem slices_layOutLead {ls : List Lead} (h : s.chars.At n (Lead.sources ls)) :
    s.slices (Piece.layOutLead n i ls) = Lead.sources ls := by
  induction ls generalizing n i with
  | nil => rfl
  | cons p ls ih =>
      rw [Lead.sources_cons] at h ⊢
      have hp : s.chars.slice n (n + p.source.size) = p.source := h.left.slice
      cases p with
      | trivia t =>
          show s.chars.slice n (n + _) ++ s.slices (Piece.layOutLead _ i ls) = _
          rw [hp, ih h.right]
      | directive ws =>
          show s.chars.slice n (n + _) ++ s.slices (Piece.layOutLead _ (i + 1) ls) = _
          rw [hp, ih h.right]

/-- A token that stands in the text with its trivia is read there. -/
theorem sourceOf_eq {t : Token} (h : s.chars.At t.start t.lexeme.source) :
    s.sourceOf t = t.lexeme.source := by
  have hl : s.chars.At t.start (Lead.sources t.lexeme.leading) := h.left.left
  have ht : s.chars.At t.span.start t.lexeme.text := h.left.right
  have hr : s.chars.At t.span.stop (Trivia.sources t.lexeme.trailing) := by
    have h := h.right
    rwa [Text.size_append, ← Nat.add_assoc] at h
  have hx : s.slice t.span = t.lexeme.text := ht.slice
  rw [sourceOf, hx, Token.leading, Token.trailing, slices_layOutLead hl, slices_layOut hr]
  rfl

theorem sourceOf_layOutWords {ws : List Word} {k : Nat}
    (h : s.chars.At n (ws.flatMap Word.source)) :
    (Token.layOutWords n i k ws).flatMap s.sourceOf = ws.flatMap Word.source := by
  induction ws generalizing n i with
  | nil => rfl
  | cons w ws ih =>
      rw [List.flatMap_cons] at h
      rw [Token.layOutWords, List.flatMap_cons, List.flatMap_cons, ih h.right, sourceOf_eq]
      · exact congrArg (· ++ _) (Lexeme.source_ofWord w)
      · show s.chars.At n (Lexeme.ofWord w).source
        rw [Lexeme.source_ofWord]
        exact h.left

end SourceText

/-! ## Pieces that are called directives -/

namespace Piece

variable {n i : Nat} {p : Piece}

theorem kind_layOut {ts : List Trivia} (h : Trivia.Plain ts) (hp : p ∈ layOut n ts) :
    p.kind ≠ .directive := by
  induction ts generalizing n with
  | nil => cases hp
  | cons t ts ih =>
      obtain ⟨ht, hts⟩ := List.forall_mem_cons.1 h
      rcases List.mem_cons.1 hp with rfl | hp
      · exact ht
      · exact ih hts hp

theorem kind_layOutLead {ts : List Trivia} (h : Trivia.Plain ts)
    (hp : p ∈ layOutLead n i (ts.map Lead.trivia)) : p.kind ≠ .directive := by
  induction ts generalizing n with
  | nil => cases hp
  | cons t ts ih =>
      obtain ⟨ht, hts⟩ := List.forall_mem_cons.1 h
      rcases List.mem_cons.1 hp with rfl | hp
      · exact ht
      · exact ih hts hp

end Piece

/-- The words of directives have no directives around them. -/
theorem Token.kind_ne_of_layOutWords {n i k : Nat} {ws : List Word} (hw : ∀ w ∈ ws, w.Plain)
    {t : Token} (ht : t ∈ layOutWords n i k ws) :
    ∀ p ∈ t.leading ++ t.trailing, p.kind ≠ .directive := by
  induction ws generalizing n i with
  | nil => cases ht
  | cons w ws ih =>
      obtain ⟨⟨hl, hr⟩, hws⟩ := List.forall_mem_cons.1 hw
      rcases List.mem_cons.1 ht with rfl | ht
      · exact List.forall_mem_append.2
          ⟨fun p hp => Piece.kind_layOutLead hl hp, fun p hp => Piece.kind_layOut hr hp⟩
      · exact ih hws ht

namespace Lead

variable {n i j : Nat} {ls : List Lead}

theorem kind_ne_of_directiveNodes (hl : ∀ p ∈ ls, p.Plain) {t : Token}
    (ht : t ∈ (directiveNodes n i j ls).flatMap Node.tokens) :
    ∀ p ∈ t.leading ++ t.trailing, p.kind ≠ .directive := by
  induction ls generalizing n i j with
  | nil => cases ht
  | cons q ls ih =>
      obtain ⟨hq, hls⟩ := List.forall_mem_cons.1 hl
      cases q with
      | trivia t => exact ih hls ht
      | directive ws =>
          rw [directiveNodes, List.flatMap_cons, Node.tokens, Forest.tokens_ofTokens] at ht
          rcases List.mem_append.1 ht with ht | ht
          · exact Token.kind_ne_of_layOutWords hq ht
          · exact ih hls ht

/-- A piece that is called a directive has a node, and the words of the node say what it says. -/
theorem exists_directiveNode {s : SourceText} (hl : ∀ p ∈ ls, p.Plain)
    (ha : s.chars.At n (sources ls)) {p : Piece} (hp : p ∈ Piece.layOutLead n i ls)
    (hk : p.kind = .directive) :
    ∃ d ∈ directiveNodes n i j ls, p.node = some d.id ∧
      d.tokens.flatMap s.sourceOf = s.slice p.span := by
  induction ls generalizing n i j with
  | nil => cases hp
  | cons q ls ih =>
      obtain ⟨hq, hls⟩ := List.forall_mem_cons.1 hl
      rw [sources_cons] at ha
      cases q with
      | trivia t =>
          rcases List.mem_cons.1 hp with rfl | hp
          · exact absurd hk hq
          · exact ih hls ha.right hp
      | directive ws =>
          rcases List.mem_cons.1 hp with rfl | hp
          · refine ⟨_, List.mem_cons_self, rfl, ?_⟩
            have hw : s.chars.At n (ws.flatMap Word.source) := ha.left
            have hs : s.chars.slice n (n + _) = ws.flatMap Word.source := hw.slice
            rw [Node.tokens, Forest.tokens_ofTokens, s.sourceOf_layOutWords hw]
            exact hs.symm
          · obtain ⟨d, hd, h⟩ := ih hls ha.right hp
            exact ⟨d, List.mem_cons_of_mem _ hd, h⟩

end Lead

/-- So it is around the token of a lexeme. -/
theorem Tally.exists_directive {n : Tally} {l : Lexeme} {b : Bool} {s : SourceText} (hl : l.Plain)
    (ha : s.chars.At n.offset l.source) {p : Piece}
    (hp : p ∈ (n.token l b).leading ++ (n.token l b).trailing) (hk : p.kind = .directive) :
    ∃ d ∈ (n.token l b).placedDirectives, p.node = some d.id ∧ d.kind = .directive ∧
      d.node.tokens.flatMap s.sourceOf = s.slice p.span := by
  rcases List.mem_append.1 hp with hp | hp
  · have hp : p ∈ Piece.layOutLead n.offset n.nodes l.leading := hp
    obtain ⟨d, hd, hn, hs⟩ := Lead.exists_directiveNode (j := n.tokens) hl.1 ha.left.left hp hk
    rw [← directives_token n l b, ← Token.map_node_placedDirectives] at hd
    obtain ⟨q, hq, rfl⟩ := List.mem_map.1 hd
    exact ⟨q, hq, hn, (Token.mem_placedDirectives hq).2.1, hs⟩
  · exact absurd hk (Piece.kind_layOut hl.2 hp)

/-! ## Lexemes in a tree -/

/-- The words of the directives in front of a lexeme, and the lexeme behind them. -/
def Lexeme.unpacked (l : Lexeme) : List Lexeme :=
  l.leading.flatMap (fun p => p.words.map .ofWord) ++ [l]

theorem Token.lexemes_layOutWords (n i k : Nat) (ws : List Word) :
    ((layOutWords n i k ws).filter fun t => !t.isMissing).map lexeme = ws.map .ofWord := by
  induction ws generalizing n i with
  | nil => rfl
  | cons w ws ih => exact congrArg (_ :: ·) (ih _ _)

theorem Lead.lexemes_directiveNodes (n i j : Nat) (ls : List Lead) :
    (((directiveNodes n i j ls).flatMap Node.tokens).filter fun t => !t.isMissing).map
      Token.lexeme = ls.flatMap fun p => p.words.map .ofWord := by
  induction ls generalizing n i j with
  | nil => rfl
  | cons p ls ih =>
      cases p with
      | trivia t => exact ih _ i j
      | directive ws =>
          rw [directiveNodes, List.flatMap_cons, List.filter_append, List.map_append, ih,
            Node.tokens, Forest.tokens_ofTokens, Token.lexemes_layOutWords]
          rfl

namespace Outline

variable (o p : Outline) (n : Tally)

/-- The tokens that the text has are the lexemes of the outline. -/
theorem lexemes_place :
    ((o.place n).tokens.filter fun t => !t.isMissing).map Token.lexeme = o.lexemes := by
  induction o generalizing n with
  | nil => rfl
  | token l r ih => exact congrArg (l :: ·) (ih (n.afterToken l))
  | missing k r ih => exact ih (n.afterToken (.absent k))
  | node k c r ihc ihr =>
      rw [place_node, Forest.tokens, List.filter_append, List.map_append, ihc, ihr]
      rfl

/-- The same with the words of directives. -/
theorem lexemes_unpacked :
    (((o.place n).tokens.flatMap Token.unpacked).filter fun t => !t.isMissing).map Token.lexeme =
      o.lexemes.flatMap Lexeme.unpacked := by
  induction o generalizing n with
  | nil => rfl
  | token l r ih =>
      rw [place_token, Forest.tokens, List.flatMap_cons, List.filter_append, List.map_append, ih,
        Token.unpacked, List.filter_append, List.map_append, Tally.directives_token,
        Lead.lexemes_directiveNodes, lexemes, List.flatMap_cons]
      rfl
  | missing k r ih => exact ih (n.afterToken (.absent k))
  | node k c r ihc ihr =>
      rw [place_node, Forest.tokens, List.flatMap_append, List.filter_append, List.map_append, ihc,
        ihr, lexemes, List.flatMap_append]

theorem elements_append : ((o ++ p).place n).elements =
    (o.place n).elements ++ (p.place (o.after n)).elements := by
  induction o generalizing n with
  | nil => rfl
  | token l r ih => exact congrArg (_ :: ·) (ih (n.afterToken l))
  | missing k r ih => exact congrArg (_ :: ·) (ih (n.afterToken (.absent k)))
  | node k c r _ ihr => exact congrArg (_ :: ·) (ihr (c.after (afterOpen n)))

theorem placedTokens_append (parent : PlacedNode) : ((o ++ p).place n).placedTokens parent =
    (o.place n).placedTokens parent ++ (p.place (o.after n)).placedTokens parent := by
  induction o generalizing n with
  | nil => rfl
  | token l r ih =>
      rw [token_append, place_token, Forest.placedTokens, ih, place_token, Forest.placedTokens,
        List.append_assoc]
      rfl
  | missing k r ih =>
      rw [missing_append, place_missing, Forest.placedTokens, ih, place_missing,
        Forest.placedTokens, List.append_assoc]
      rfl
  | node k c r _ ihr =>
      rw [node_append, place_node, Forest.placedTokens, ihr, place_node, Forest.placedTokens,
        List.append_assoc]
      rfl

variable {o n} {s : SourceText}

/-- The tokens read in order say what the lexemes of the outline say. -/
theorem sourceOf_place (h : s.chars.At n.offset (Lexeme.sources o.lexemes)) :
    (o.place n).tokens.flatMap s.sourceOf = Lexeme.sources o.lexemes := by
  induction o generalizing n with
  | nil => rfl
  | token l r ih =>
      rw [lexemes, Lexeme.sources_cons] at h ⊢
      rw [place_token, Forest.tokens, List.flatMap_cons, ih h.right, s.sourceOf_eq]
      · rfl
      · exact h.left
  | missing k r ih =>
      have hk : s.chars.At n.offset (Lexeme.absent k).source :=
        Text.At.left (b := Lexeme.sources r.lexemes) h
      rw [place_missing, Forest.tokens, List.flatMap_cons, s.sourceOf_eq]
      · exact ih (n := n.afterToken (.absent k)) h
      · exact hk
  | node k c r ihc ihr =>
      rw [lexemes, Lexeme.sources_append] at h ⊢
      rw [place_node, Forest.tokens, List.flatMap_append, ihc (n := afterOpen n) h.left, ihr]
      rw [offset_after]
      exact h.right

/-- A token stands in the text with its trivia. -/
theorem at_place (h : s.chars.At n.offset (Lexeme.sources o.lexemes)) {t : Token}
    (ht : t ∈ (o.place n).tokens) : s.chars.At t.start t.lexeme.source := by
  induction o generalizing n with
  | nil => cases ht
  | token l r ih =>
      rw [lexemes, Lexeme.sources_cons] at h
      rcases List.mem_cons.1 ht with rfl | ht
      · exact h.left
      · exact ih (n := n.afterToken l) h.right ht
  | missing k r ih =>
      rcases List.mem_cons.1 ht with rfl | ht
      · exact Text.At.left (a := []) h
      · exact ih (n := n.afterToken (.absent k)) h ht
  | node k c r ihc ihr =>
      rw [lexemes, Lexeme.sources_append] at h
      rcases List.mem_append.1 ht with ht | ht
      · exact ihc (n := afterOpen n) h.left ht
      · refine ihr (n := c.after (afterOpen n)) ?_ ht
        rw [offset_after]
        exact h.right

/-- A piece that is called a directive has a node in the table, and the words of the node say what
it says. -/
theorem exists_directive (hl : ∀ l ∈ o.lexemes, l.Plain)
    (ha : s.chars.At n.offset (Lexeme.sources o.lexemes)) {as : List Node} {parent : PlacedNode}
    {x : PlacedToken} (hx : x ∈ (o.place n).placedTokens parent) {p : Piece}
    (hp : p ∈ x.token.leading ++ x.token.trailing) (hk : p.kind = .directive) :
    ∃ d ∈ (o.place n).placedNodes as, p.node = some d.id ∧ d.kind = .directive ∧
      d.node.tokens.flatMap s.sourceOf = s.slice p.span := by
  induction o generalizing n as parent with
  | nil => cases hx
  | token l r ih =>
      obtain ⟨hll, hr⟩ := List.forall_mem_cons.1 hl
      rw [lexemes, Lexeme.sources_cons] at ha
      rw [place_token, Forest.placedTokens] at hx
      rcases List.mem_append.1 hx with hx | hx
      · have hm := List.mem_map_of_mem (f := PlacedToken.token) hx
        rw [Token.map_token_words, Tally.directives_token] at hm
        exact absurd hk (Lead.kind_ne_of_directiveNodes hll.1 hm p hp)
      · rcases List.mem_cons.1 hx with rfl | hx
        · obtain ⟨d, hd, h⟩ := Tally.exists_directive hll ha.left hp hk
          exact ⟨d, List.mem_append_left _ hd, h⟩
        · obtain ⟨d, hd, h⟩ := ih hr ha.right hx
          exact ⟨d, List.mem_append_right _ hd, h⟩
  | missing k r ih =>
      rw [place_missing, Forest.placedTokens] at hx
      rcases List.mem_cons.1 hx with rfl | hx
      · cases hp
      · obtain ⟨d, hd, h⟩ := ih (n := n.afterToken (.absent k)) hl ha hx
        exact ⟨d, hd, h⟩
  | node k c r ihc ihr =>
      obtain ⟨hc, hr⟩ := List.forall_mem_append.1 hl
      rw [lexemes, Lexeme.sources_append] at ha
      rw [place_node, Forest.placedTokens] at hx
      rcases List.mem_append.1 hx with hx | hx
      · obtain ⟨d, hd, h⟩ := ihc (n := afterOpen n) hc ha.left hx
        exact ⟨d, List.mem_cons_of_mem _ (List.mem_append_left _ hd), h⟩
      · have har : s.chars.At (c.after (afterOpen n)).offset (Lexeme.sources r.lexemes) := by
          rw [offset_after]
          exact ha.right
        obtain ⟨d, hd, h⟩ := ihr hr har hx
        exact ⟨d, List.mem_cons_of_mem _ (List.mem_append_right _ hd), h⟩

end Outline

/-! ## The tree of a text -/

namespace Tree

variable {l : Language} {s : SourceText} {x : PlacedToken}

theorem map_token_tokens (t : Tree) :
    t.tokens.toList.map (·.token) = t.root.tokens.flatMap Token.unpacked := by
  rw [t.tokens_eq]
  exact Forest.map_token_placedTokens _ _

/-- The tokens outside directives are those below the root. -/
theorem tokens_root (t : Tree) :
    t.root.tokens = (t.tokens.toList.filter fun x => !x.inDirective).map (·.token) := by
  rw [t.tokens_eq]
  exact Forest.tokens_eq_filter _ _

theorem at_parse (hx : x ∈ (parse l s).tokens) (hi : x.inDirective = false) :
    s.chars.At x.token.start x.token.lexeme.source := by
  obtain ⟨o, hr, hl, -⟩ := exists_outline l s
  have ht : x.token ∈ (parse l s).root.tokens := by
    rw [tokens_root]
    refine List.mem_map_of_mem (List.mem_filter.2 ⟨Array.mem_toList_iff.2 hx, ?_⟩)
    rw [hi]
    rfl
  rw [hr] at ht
  exact Outline.at_place (n := ⟨1, 0, 0⟩) (hl ▸ LexemeSeq.at_ofText l s.chars) ht

/-- The end of the text is the last token and a child of the root. -/
theorem exists_end (l : Language) (s : SourceText) : ∃ x, (parse l s).tokens.back? = some x ∧
    x.token.lexeme = (LexemeSeq.ofText l s.chars).last ∧ x.token.isMissing = false ∧
    x.parent = (parse l s).placedRoot ∧ .token x.token ∈ (parse l s).root.elements := by
  obtain ⟨o, hr, -, -⟩ := exists_outline_before_end l s
  refine ⟨⟨(o.after ⟨1, 0, 0⟩).token _ false, (parse l s).placedRoot, false⟩, ?_, rfl, rfl, rfl, ?_⟩
  · have ht : (parse l s).tokens.toList =
        (parse l s).root.children.placedTokens (parse l s).placedRoot := by
      rw [tokens_eq]
      rfl
    rw [← Array.getLast?_toList, ht, hr, Outline.placedTokens_append,
      List.getLast?_eq_some_iff]
    exact ⟨_, (List.append_assoc _ _ _).symm⟩
  · rw [Node.elements, hr, Outline.elements_append]
    exact List.mem_append_right _ List.mem_cons_self

/-- The tokens outside directives, read in order with their trivia, say the text. -/
theorem sourceOf_tokens (l : Language) (s : SourceText) :
    (parse l s).root.tokens.flatMap s.sourceOf = s.chars := by
  obtain ⟨o, hr, hl, -⟩ := exists_outline l s
  have ha : s.chars.At 0 (Lexeme.sources o.lexemes) := hl ▸ LexemeSeq.at_ofText l s.chars
  rw [hr]
  show (o.place ⟨1, 0, 0⟩).tokens.flatMap s.sourceOf = s.chars
  rw [Outline.sourceOf_place ha, hl, LexemeSeq.sources_all]

/-- The text has the lexemes of the tokens that are not missing, each once and in order. -/
theorem lexemes_tokens (l : Language) (s : SourceText) :
    ((parse l s).root.tokens.filter fun x => !x.isMissing).map Token.lexeme =
        (LexemeSeq.ofText l s.chars).all ∧
      ((parse l s).tokens.toList.filter fun x => !x.token.isMissing).map (·.token.lexeme) =
        (LexemeSeq.ofText l s.chars).all.flatMap Lexeme.unpacked := by
  obtain ⟨o, hr, hl, -⟩ := exists_outline l s
  constructor
  · rw [hr, ← hl]
    exact o.lexemes_place _
  · have ht := o.lexemes_unpacked ⟨1, 0, 0⟩
    have hm : (parse l s).tokens.toList.map (·.token) =
        (o.place ⟨1, 0, 0⟩).tokens.flatMap Token.unpacked := by
      rw [map_token_tokens, hr]
      rfl
    rw [← hl, ← ht, ← hm, List.filter_map, List.map_map]
    rfl

theorem fullSpan_root (l : Language) (s : SourceText) :
    (parse l s).root.fullSpan.start = 0 ∧ (parse l s).root.fullSpan.stop = s.size :=
  (tiled_parse l s).fullSpan (h := (parse l s).root.head)

theorem isEmpty_of_isMissing (hx : x ∈ (parse l s).tokens)
    (hm : x.token.isMissing = true) : x.token.fullSpan.isEmpty = true := by
  rcases stands_of_mem hx with ⟨-, k, hk⟩ | ⟨hm', -⟩
  · refine Span.isEmpty_iff.2 ?_
    show _ = x.token.start + x.token.lexeme.source.size
    rw [hk]
    rfl
  · rw [hm] at hm'
    cases hm'

/-- Where a piece is called a directive, its node is in the table and says what the piece says. -/
theorem exists_directive (hx : x ∈ (parse l s).tokens) {p : Piece}
    (hp : p ∈ x.token.leading ++ x.token.trailing) (hk : p.kind = .directive) :
    ∃ i d, p.node = some i ∧ (parse l s).nodes[i]? = some d ∧ d.kind = .directive ∧
      d.node.tokens.flatMap s.sourceOf = s.slice p.span := by
  obtain ⟨o, hr, hl, -⟩ := exists_outline l s
  have ha : s.chars.At 0 (Lexeme.sources o.lexemes) := hl ▸ LexemeSeq.at_ofText l s.chars
  have hpl : ∀ y ∈ o.lexemes, y.Plain := by
    rw [hl]
    exact LexemeSeq.plain_ofText l s.chars
  rw [mem_tokens_iff, hr] at hx
  obtain ⟨d, hd, hn, h⟩ := Outline.exists_directive hpl ha hx hp hk
  have hd : d ∈ (parse l s).nodes := by
    rw [mem_nodes_iff, hr]
    exact List.mem_cons_of_mem _ hd
  exact ⟨d.id, d, hn, getElem?_id hd, h⟩

/-- Reading a text as a tree loses nothing. -/
theorem parse_lossless (l : Language) (s : SourceText) :
    let t := parse l s
    let q := LexemeSeq.ofText l s.chars
    t.root.tokens.flatMap s.sourceOf = s.chars ∧
    (t.root.tokens.filter fun x => !x.isMissing).map Token.lexeme = q.all ∧
    (t.tokens.toList.filter fun x => !x.token.isMissing).map (·.token.lexeme) =
      q.all.flatMap Lexeme.unpacked ∧
    (∀ x ∈ t.tokens, x.token.isMissing = true → x.token.fullSpan.isEmpty = true) ∧
    (∃ x, t.tokens.back? = some x ∧ x.token.lexeme = q.last ∧ x.token.kind = .endOfFile ∧
      x.token.isMissing = false ∧ x.parent = t.placedRoot ∧ .token x.token ∈ t.root.elements) ∧
    t.root.kind = .compilationUnit ∧
    (t.root.fullSpan.start = 0 ∧ t.root.fullSpan.stop = s.size) ∧
    ∀ x ∈ t.tokens, ∀ p ∈ x.token.leading ++ x.token.trailing, p.kind = .directive →
      ∃ i d, p.node = some i ∧ t.nodes[i]? = some d ∧ d.kind = .directive ∧
        d.node.tokens.flatMap s.sourceOf = s.slice p.span := by
  intro t q
  obtain ⟨hl, hu⟩ := lexemes_tokens l s
  refine ⟨sourceOf_tokens l s, hl, hu, fun x hx hm => isEmpty_of_isMissing hx hm, ?_, rfl,
    fullSpan_root l s, fun x hx p hp hk => exists_directive hx hp hk⟩
  obtain ⟨x, hx, hlast, h⟩ := exists_end l s
  refine ⟨x, hx, hlast, ?_, h⟩
  rw [Token.kind, hlast]
  exact LexemeSeq.kind_last_scan

end Tree

end Xref
