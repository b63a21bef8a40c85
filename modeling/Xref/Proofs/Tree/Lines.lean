import Xref.Proofs.Lexeme.Lines
import Xref.Proofs.Tree.Directives

/-!
# Directives in a tree stay on their line

A piece of trivia that is called a directive has a node with the words of the directive, and says
what they say. So whether it is one line of the text can be told from these words alone
(`Tree.directive_isLine`): it is, unless one of them is a verbatim C# literal that goes on over a line
break.
-/

namespace Xref

open Shape

theorem Token.map_lexeme_layOutWords (n i k : Nat) (ws : List Word) :
    (layOutWords n i k ws).map lexeme = ws.map .ofWord := by
  induction ws generalizing n i with
  | nil => rfl
  | cons w ws ih => exact congrArg (_ :: ·) (ih _ _)

/-- The node of a directive is made of the words of a directive in the trivia. -/
theorem Lead.exists_words {s : SourceText} {ls : List Lead} {n i j : Nat} {d : Node}
    (hd : d ∈ directiveNodes n i j ls) (ha : s.chars.At n (sources ls)) :
    ∃ ws, .directive ws ∈ ls ∧ d.tokens.map Token.lexeme = ws.map .ofWord ∧
      d.tokens.flatMap s.sourceOf = ws.flatMap Word.source := by
  induction ls generalizing n i j with
  | nil => cases hd
  | cons p ls ih =>
      rw [sources_cons] at ha
      cases p with
      | trivia t =>
          obtain ⟨ws, hw, h⟩ := ih hd ha.right
          exact ⟨ws, List.mem_cons_of_mem _ hw, h⟩
      | directive ws =>
          rcases List.mem_cons.1 hd with rfl | hd
          · have hw : s.chars.At n (ws.flatMap Word.source) := ha.left
            refine ⟨ws, List.mem_cons_self, ?_, ?_⟩
            · rw [Node.tokens, Forest.tokens_ofTokens, Token.map_lexeme_layOutWords]
            · rw [Node.tokens, Forest.tokens_ofTokens, s.sourceOf_layOutWords hw]
          · obtain ⟨ws, hw, h⟩ := ih hd ha.right
            exact ⟨ws, List.mem_cons_of_mem _ hw, h⟩

namespace Tree

variable {l : Language} {s : SourceText} {x : PlacedToken}

/-- A token outside directives that the text has is one of its lexemes. -/
theorem lexeme_mem (hx : x ∈ (parse l s).tokens) (hi : x.inDirective = false)
    (hm : x.token.isMissing = false) : x.token.lexeme ∈ (LexemeSeq.ofText l s.chars).all := by
  rw [← (lexemes_tokens l s).1, tokens_root]
  refine List.mem_map_of_mem (List.mem_filter.2 ⟨List.mem_map_of_mem (List.mem_filter.2 ?_), ?_⟩)
  · exact ⟨Array.mem_toList_iff.2 hx, by rw [hi]; rfl⟩
  · rw [hm]
    rfl

/-- A directive is one line of the text exactly if its verbatim literals are lines. -/
theorem directive_isLine (hx : x ∈ (parse l s).tokens) {p : Piece}
    (hp : p ∈ x.token.leading ++ x.token.trailing) (hk : p.kind = .directive) :
    ∃ d ∈ (parse l s).nodes, p.node = some d.id ∧ d.kind = .directive ∧
      ((s.slice p.span).IsLine ↔ ∀ w ∈ d.node.tokens, IsVerbatim l w.text → w.text.IsLine) := by
  obtain ⟨i, d, hn, hd, hdk, hs⟩ := exists_directive hx hp hk
  have hid := id_of_getElem?_nodes hd
  have hd := Array.mem_of_getElem? hd
  refine ⟨d, hd, by rw [hid, hn], hdk, ?_⟩
  obtain ⟨y, hy, hi, hdy, -⟩ := exists_token_of_owner hd ((kind_eq_directive_iff hd).1 hdk)
  have hw : d.node ∈ y.token.directives := (Token.mem_placedDirectives hdy).1
  obtain ⟨ws, hm, hl, hsw⟩ := Lead.exists_words hw (at_parse hy hi).left.left
  have hya : y.token.lexeme ∈ (LexemeSeq.ofText l s.chars).all := by
    rcases stands_of_mem hy with ⟨-, k, hk⟩ | ⟨hym, -⟩
    · rw [hk] at hm
      cases hm
    · exact lexeme_mem hy hi hym
  rw [← hs, hsw, LexemeSeq.isLine_of_mem_ofText hya hm]
  have ht : ws.map Word.text = d.node.tokens.map Token.text := by
    have h := congrArg (List.map Lexeme.text) hl
    rw [List.map_map, List.map_map] at h
    exact h.symm
  rw [← List.forall_mem_map (f := Word.text) (P := fun t => IsVerbatim l t → Text.IsLine t), ht,
    List.forall_mem_map]

/-- The literal is not closed, so the directive goes on to the end of the text and hides a class. -/
theorem directive_isLine_unclosed :
    let s := SourceText.ofText "#if @\"\nclass C { }\n".toList 0
    ∃ x ∈ (parse .csharp s).tokens, ∃ p ∈ x.token.leading ++ x.token.trailing,
      p.kind = .directive ∧ s.slice p.span = s.chars ∧ ¬ s.chars.IsLine ∧
      ∃ d ∈ (parse .csharp s).nodes, p.node = some d.id ∧ d.kind = .directive ∧
        ∃ w ∈ d.node.tokens, IsVerbatim .csharp w.text ∧ ¬ w.text.IsLine := by
  intro s
  have h : ((parse .csharp s).tokens.toList.any fun x =>
      (x.token.leading ++ x.token.trailing).any fun p =>
        p.kind == .directive && s.slice p.span == s.chars) = true := by
    decide +kernel
  obtain ⟨x, hx, h⟩ := List.any_eq_true.1 h
  obtain ⟨p, hp, h⟩ := List.any_eq_true.1 h
  rw [Bool.and_eq_true, beq_iff_eq, beq_iff_eq] at h
  have hs : ¬ s.chars.IsLine := by
    intro hl
    have hi : ['\n', 'c'] <:+: s.chars := by decide
    have hn := (hl.part hi).unbroken (c := 'c') rfl rfl '\n' List.mem_cons_self
    cases hn
  obtain ⟨d, hd, hn, hdk, hw⟩ := directive_isLine (Array.mem_toList_iff.1 hx) hp h.1
  refine ⟨x, Array.mem_toList_iff.1 hx, p, hp, h.1, h.2, hs, d, hd, hn, hdk, ?_⟩
  rw [h.2] at hw
  by_contra hc
  refine hs (hw.2 fun w hwd hv => ?_)
  by_contra hl
  exact hc ⟨w, hwd, hv, hl⟩

end Tree

end Xref
