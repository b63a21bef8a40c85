import Xref.Proofs.Lexeme.Spot
import Xref.Proofs.Tree.Outline
import Xref.Proofs.Tree.Tables

/-!
# How an outline is laid out

The tables of a laid out outline, seen from the tally it starts at. Tokens carry consecutive numbers
and stand in order without overlap (`Outline.laid_place`), nodes carry consecutive numbers
(`Outline.ids_place`), and a token that the text has stands at the spot of its lexeme
(`Outline.spot_place`). The words of directives need the same three facts first, since they come
just before the token that holds them.
-/

namespace Xref

/-! ## Tokens in order -/

namespace Token

theorem size_span (t : Token) : t.span.size = t.text.size :=
  Nat.add_sub_cancel_left _ _

theorem text_ne_nil_of_span_eq {t u : Token} (h : t.span = u.span) (hu : u.text ≠ []) :
    t.text ≠ [] := by
  intro ht
  have hs := congrArg Span.size h
  rw [size_span, size_span, ht] at hs
  exact hu (Text.size_eq_zero.1 hs.symm)

/-- Tokens numbered from `i` up to `j` that stand one after the other between `x` and `y`. -/
def Laid (i x : Nat) : List Token → Nat → Nat → Prop
  | [], j, y => i = j ∧ x ≤ y
  | t :: ts, j, y => t.id = i ∧ x ≤ t.span.start ∧ Laid (i + 1) t.span.stop ts j y

variable {i j k x y z : Nat} {ts us : List Token}

theorem Laid.of_le {w : Nat} (hw : w ≤ x) (h : Laid i x ts j y) : Laid i w ts j y := by
  cases ts with
  | nil => exact ⟨h.1, Nat.le_trans hw h.2⟩
  | cons t ts => exact ⟨h.1, Nat.le_trans hw h.2.1, h.2.2⟩

theorem Laid.append (h : Laid i x ts j y) (h' : Laid j y us k z) : Laid i x (ts ++ us) k z := by
  induction ts generalizing i x with
  | nil =>
      obtain ⟨rfl, hx⟩ := h
      exact h'.of_le hx
  | cons t ts ih => exact ⟨h.1, h.2.1, ih h.2.2⟩

theorem Laid.bounds (h : Laid i x ts j y) {t : Token} (ht : t ∈ ts) :
    i ≤ t.id ∧ x ≤ t.span.start := by
  induction ts generalizing i x with
  | nil => cases ht
  | cons u ts ih =>
      rcases List.mem_cons.1 ht with rfl | ht
      · exact ⟨Nat.le_of_eq h.1.symm, h.2.1⟩
      · obtain ⟨hi, hx⟩ := ih h.2.2 ht
        have hu := u.span.start_le_stop
        have := h.2.1
        exact ⟨by omega, by omega⟩

/-- Of two tokens the one that comes first has the smaller number and stops first. -/
theorem Laid.pairwise (h : Laid i x ts j y) :
    ts.Pairwise fun t u => t.id < u.id ∧ t.span.stop ≤ u.span.start := by
  induction ts generalizing i x with
  | nil => exact .nil
  | cons t ts ih =>
      refine .cons (fun u hu => ?_) (ih h.2.2)
      obtain ⟨hi, hx⟩ := Laid.bounds h.2.2 hu
      exact ⟨by rw [h.1]; exact hi, hx⟩

end Token

/-! ## Words of directives -/

theorem Token.laid_layOutWords (n i k : Nat) (ws : List Word) :
    Token.Laid i n (layOutWords n i k ws) (i + ws.length)
      (n + Text.size (ws.flatMap Word.source)) := by
  induction ws generalizing n i with
  | nil => exact ⟨rfl, Nat.le_refl _⟩
  | cons w ws ih =>
      have hi := ih (n + w.source.size) (i + 1)
      refine ⟨rfl, Nat.le_add_right _ _, ?_⟩
      rw [List.length_cons, List.flatMap_cons, Text.size_append, ← Nat.add_assoc n,
        Nat.add_comm ws.length, ← Nat.add_assoc]
      refine hi.of_le ?_
      show n + (Lead.sources (w.leading.map Lead.trivia)).size + w.text.size ≤ _
      rw [Lead.sources_trivia, Word.source, Text.size_append, Text.size_append]
      omega

theorem Lead.laid_directiveNodes (n i j : Nat) (ls : List Lead) :
    Token.Laid j n ((directiveNodes n i j ls).flatMap Node.tokens) (j + wordCount ls)
      (n + (sources ls).size) := by
  induction ls generalizing n i j with
  | nil => exact ⟨rfl, Nat.le_refl _⟩
  | cons p ls ih =>
      cases p with
      | trivia t =>
          have h := ih (n + t.text.size) i j
          rw [wordCount, sources_cons, Text.size_append, ← Nat.add_assoc n]
          refine Token.Laid.of_le (Nat.le_add_right n t.text.size) ?_
          rwa [words, List.length_nil, Nat.zero_add]
      | directive ws =>
          have h := ih (n + (Lead.directive ws).source.size) (i + 1) (j + ws.length)
          rw [directiveNodes, List.flatMap_cons, wordCount, sources_cons, Text.size_append,
            ← Nat.add_assoc n, words, ← Nat.add_assoc j]
          refine Token.Laid.append ?_ h
          rw [Node.tokens, Forest.tokens_ofTokens]
          exact Token.laid_layOutWords n j i ws

theorem Lead.ids_directiveNodes (n i j : Nat) (ls : List Lead) :
    (directiveNodes n i j ls).map Node.id = List.range' i (directiveCount ls) := by
  induction ls generalizing n i j with
  | nil => rfl
  | cons p ls ih =>
      cases p with
      | trivia t => exact ih _ i j
      | directive ws =>
          have hc : directiveCount (.directive ws :: ls) = directiveCount ls + 1 :=
            List.countP_cons_of_pos rfl
          rw [directiveNodes, List.map_cons, ih, hc, List.range'_succ]
          rfl

theorem Lead.length_directiveNodes_eq (n i j : Nat) (ls : List Lead) :
    (directiveNodes n i j ls).length = directiveCount ls := by
  have h := congrArg List.length (ids_directiveNodes n i j ls)
  rwa [List.length_map, List.length_range'] at h

theorem Token.map_token_words (t : Token) :
    (t.placedDirectives.flatMap PlacedNode.words).map (·.token) =
      t.directives.flatMap Node.tokens := by
  rw [← Token.map_node_placedDirectives, List.flatMap_map, List.map_flatMap]
  congr 1
  funext d
  rw [PlacedNode.words, List.map_map]
  exact List.map_id' _

/-- The words of the directives of a token, and the token behind them. -/
def Token.unpacked (t : Token) : List Token :=
  t.directives.flatMap Node.tokens ++ [t]

/-- The table of tokens holds the tokens of a forest, each behind the words of its directives. -/
theorem Forest.map_token_placedTokens (f : Forest) (p : PlacedNode) :
    (f.placedTokens p).map (·.token) = f.tokens.flatMap Token.unpacked := by
  induction f generalizing p with
  | nil => rfl
  | token t rest ih =>
      rw [placedTokens, List.map_append, List.map_cons, Token.map_token_words, ih, tokens,
        List.flatMap_cons, Token.unpacked, List.append_assoc]
      rfl
  | node head children rest ihc ihr =>
      rw [placedTokens, List.map_append, ihc, ihr, tokens, List.flatMap_append]

/-- Without the words of directives the table of tokens holds the tokens of the forest. -/
theorem Forest.tokens_eq_filter (f : Forest) (parent : PlacedNode) :
    f.tokens = ((f.placedTokens parent).filter fun x => !x.inDirective).map (·.token) := by
  induction f generalizing parent with
  | nil => rfl
  | token t rest ih =>
      have hw : (t.placedDirectives.flatMap PlacedNode.words).filter (fun x => !x.inDirective) =
          [] := by
        refine List.filter_eq_nil_iff.2 fun x hx => ?_
        obtain ⟨d, -, hx⟩ := List.mem_flatMap.1 hx
        obtain ⟨w, -, rfl⟩ := List.mem_map.1 hx
        exact Bool.false_ne_true
      rw [tokens, placedTokens, List.filter_append, hw, List.nil_append,
        List.filter_cons_of_pos rfl, List.map_cons, ← ih]
  | node head c rest ihc ihr =>
      rw [tokens, placedTokens, List.filter_append, List.map_append, ← ihc, ← ihr]

/-- The directives of the token of a lexeme, numbered from the tally on. -/
theorem Tally.directives_token (n : Tally) (l : Lexeme) (b : Bool) :
    (n.token l b).directives = Lead.directiveNodes n.offset n.nodes n.tokens l.leading := by
  show Lead.directiveNodes n.offset n.nodes
    (n.tokens + Lead.wordCount l.leading - Lead.wordCount l.leading) l.leading = _
  rw [Nat.add_sub_cancel]

/-! ## Outlines -/

namespace Outline

variable (o : Outline) (n : Tally)

/-- A lexeme's words and then the lexeme, in order. -/
theorem laid_token (l : Lexeme) (b : Bool) :
    Token.Laid n.tokens n.offset
      ((n.token l b).directives.flatMap Node.tokens ++ [n.token l b])
      (n.afterToken l).tokens (n.afterToken l).offset := by
  rw [Tally.directives_token]
  refine (Lead.laid_directiveNodes _ _ _ _).append ⟨rfl, Nat.le_refl _, rfl, ?_⟩
  show n.offset + (Lead.sources l.leading).size + l.text.size ≤ n.offset + l.source.size
  rw [Lexeme.source, Text.size_append, Text.size_append]
  omega

theorem laid_place (p : PlacedNode) :
    Token.Laid n.tokens n.offset (((o.place n).placedTokens p).map (·.token))
      (o.after n).tokens (o.after n).offset := by
  induction o generalizing n p with
  | nil => exact ⟨rfl, Nat.le_refl _⟩
  | token l r ih =>
      rw [place_token, Forest.placedTokens, List.map_append, List.map_cons,
        Token.map_token_words, List.append_cons]
      exact (laid_token n l false).append (ih _ p)
  | missing k r ih =>
      rw [place_missing, Forest.placedTokens, List.map_append, List.map_cons,
        Token.map_token_words, List.append_cons]
      exact (laid_token n (.absent k) true).append (ih _ p)
  | node k c r ihc ihr =>
      rw [place_node, Forest.placedTokens, List.map_append]
      exact (ihc (afterOpen n) _).append (ihr _ p)

/-- The numbers of nodes are consecutive. -/
theorem ids_place (around : List Node) :
    ((o.place n).placedNodes around).map PlacedNode.id =
        List.range' n.nodes ((o.place n).placedNodes around).length ∧
      (o.after n).nodes = n.nodes + ((o.place n).placedNodes around).length := by
  have ht (n : Tally) (l : Lexeme) (b : Bool) : (n.token l b).placedDirectives.map PlacedNode.id =
      List.range' n.nodes (n.token l b).placedDirectives.length ∧
        (n.token l b).placedDirectives.length = Lead.directiveCount l.leading := by
    have hm := Token.map_node_placedDirectives (n.token l b)
    rw [Tally.directives_token] at hm
    have hl : (n.token l b).placedDirectives.length = Lead.directiveCount l.leading := by
      rw [← Lead.length_directiveNodes_eq n.offset n.nodes n.tokens l.leading, ← hm,
        List.length_map]
    refine ⟨?_, hl⟩
    rw [hl, ← Lead.ids_directiveNodes n.offset n.nodes n.tokens, ← hm, List.map_map]
    rfl
  induction o generalizing n around with
  | nil => exact ⟨rfl, rfl⟩
  | token l r ih =>
      obtain ⟨hd, hc⟩ := ht n l false
      obtain ⟨hi, ha⟩ := ih (n.afterToken l) around
      rw [place_token, Forest.placedNodes, List.map_append, List.length_append, hd, hi, after, ha]
      constructor
      · rw [← List.range'_append_1, hc]
        rfl
      · rw [hc, ← Nat.add_assoc]
        rfl
  | missing k r ih =>
      exact ih (n.afterToken (.absent k)) around
  | node k c r ihc ihr =>
      obtain ⟨hic, hac⟩ := ihc (afterOpen n)
        (⟨⟨n.nodes, k, n.offset⟩, c.place (afterOpen n)⟩ :: around)
      obtain ⟨hir, har⟩ := ihr (c.after (afterOpen n)) around
      rw [place_node, Forest.placedNodes, List.map_cons, List.map_append, List.length_cons,
        List.length_append, hic, hir, after, har, hac]
      constructor
      · rw [List.range'_succ, List.range'_append_1]
        rfl
      · show n.nodes + 1 + _ + _ = _
        omega

theorem offset_after : (o.after n).offset = n.offset + (Lexeme.sources o.lexemes).size := by
  induction o generalizing n with
  | nil => rfl
  | token l r ih =>
      rw [after, ih, lexemes, Lexeme.sources_cons, Text.size_append]
      exact Nat.add_assoc _ _ _
  | missing k r ih => exact ih _
  | node k c r ihc ihr =>
      rw [after, ihr, ihc, lexemes, Lexeme.sources_append, Text.size_append]
      exact Nat.add_assoc _ _ _

end Outline

/-! ## Tokens and their spots -/

/-- A token that the text has stands at one of the spots; the text lacks the others. -/
def Token.StandsAt (t : Token) (spots : List Spot) : Prop :=
  (t.isMissing = true ∧ ∃ k, t.lexeme = .absent k) ∨
    (t.isMissing = false ∧ ∃ pre, (pre, t.lexeme) ∈ spots ∧ pre.size = t.span.start)

theorem Token.StandsAt.mono {t : Token} {ss ss' : List Spot} (h : t.StandsAt ss)
    (hs : ∀ x ∈ ss, x ∈ ss') : t.StandsAt ss' := by
  rcases h with h | ⟨hm, pre, hp, hn⟩
  · exact .inl h
  · exact .inr ⟨hm, pre, hs _ hp, hn⟩

theorem Token.standsAt_layOutWords {n i k : Nat} {ws : List Word} {pre : Text}
    (hp : pre.size = n) {t : Token} (ht : t ∈ layOutWords n i k ws) :
    t.StandsAt (Word.spots pre ws) := by
  induction ws generalizing n i pre with
  | nil => cases ht
  | cons w ws ih =>
      rcases List.mem_cons.1 ht with rfl | ht
      · refine .inr ⟨rfl, _, List.mem_cons_self, ?_⟩
        show _ = n + (Lead.sources (w.leading.map Lead.trivia)).size
        rw [Text.size_append, hp, Lead.sources_trivia]
      · have hw : (pre ++ w.source).size = n + w.source.size := by rw [Text.size_append, hp]
        exact (ih hw ht).mono fun x hx => List.mem_cons_of_mem _ hx

theorem Lead.standsAt_directiveNodes {n i j : Nat} {ls : List Lead} {pre : Text}
    (hp : pre.size = n) {t : Token} (ht : t ∈ (directiveNodes n i j ls).flatMap Node.tokens) :
    t.StandsAt (spots pre ls) := by
  induction ls generalizing n i j pre with
  | nil => cases ht
  | cons p ls ih =>
      have hw : (pre ++ p.source).size = n + p.source.size := by rw [Text.size_append, hp]
      cases p with
      | trivia t => exact (ih hw ht).mono fun x hx => List.mem_append_right _ hx
      | directive ws =>
          rw [directiveNodes, List.flatMap_cons, Node.tokens, Forest.tokens_ofTokens] at ht
          rcases List.mem_append.1 ht with ht | ht
          · exact (Token.standsAt_layOutWords hp ht).mono fun x hx => List.mem_append_left _ hx
          · exact (ih hw ht).mono fun x hx => List.mem_append_right _ hx

/-- Every token in the table of an outline stands at a spot of its lexemes. -/
theorem Outline.spot_place (o : Outline) {n : Tally} (p : PlacedNode) {pre : Text}
    (hp : pre.size = n.offset) {t : Token}
    (ht : t ∈ ((o.place n).placedTokens p).map (·.token)) :
    t.StandsAt (Lexeme.spots pre o.lexemes) := by
  induction o generalizing n p pre with
  | nil => cases ht
  | token l r ih =>
      have hl : (pre ++ l.source).size = (n.afterToken l).offset := by
        rw [Text.size_append, hp]
        rfl
      rw [place_token, Forest.placedTokens, List.map_append, List.map_cons,
        Token.map_token_words, Tally.directives_token] at ht
      rcases List.mem_append.1 ht with ht | ht
      · exact (Lead.standsAt_directiveNodes hp ht).mono fun x hx => List.mem_append_left _ hx
      · rcases List.mem_cons.1 ht with rfl | ht
        · refine .inr ⟨rfl, _, List.mem_append_right _ List.mem_cons_self, ?_⟩
          rw [Text.size_append, hp]
          rfl
        · exact (ih p hl ht).mono fun x hx =>
            List.mem_append_right _ (List.mem_cons_of_mem _ hx)
  | missing k r ih =>
      rw [place_missing, Forest.placedTokens, List.map_append, List.map_cons,
        Token.map_token_words] at ht
      rcases List.mem_cons.1 ht with rfl | ht
      · exact .inl ⟨rfl, k, rfl⟩
      · exact ih (n := n.afterToken (.absent k)) p hp ht
  | node k c r ihc ihr =>
      rw [place_node, Forest.placedTokens, List.map_append] at ht
      rw [lexemes, Lexeme.spots_append]
      have hc : (pre ++ Lexeme.sources c.lexemes).size = (c.after (afterOpen n)).offset := by
        rw [Text.size_append, hp, offset_after]
        rfl
      rcases List.mem_append.1 ht with ht | ht
      · exact (ihc (n := afterOpen n) _ hp ht).mono fun x hx => List.mem_append_left _ hx
      · exact (ihr p hc ht).mono fun x hx => List.mem_append_right _ hx

end Xref
