import Xref.Proofs.Cache.Tokens
import Xref.Proofs.Filter.Index
import Xref.Proofs.Lexeme.Spelling
import Xref.Proofs.Tree.Lossless

/-!
# Whoever looks for a name finds its spellings

A document that consists of one spelling of a name has one token, which stands for the name. A search
for the name finds it, and nothing else, whatever the spelling is and however the index errs
(`Query.tokensOf_spelling`). A spelling that is not the name itself is in the index of escaped names,
so the tree is walked for it; brackets always are such a spelling. The name as it is written is found
in the text.
-/

namespace Xref

namespace Tree

variable {l : Language} {s : SourceText} {x : Lexeme}

/-- In the tree of a text that is one token, no other token is a name. -/
theorem exists_filter_eq_singleton
    (h : LexemeSeq.ofText l s.chars = ⟨[x], { kind := .endOfFile, text := [] }⟩)
    (hk : x.kind = .identifier) (hx : x.text = s.chars) (hl : x.leading = []) :
    ∃ t, (parse l s).tokens.toList.filter (·.token.isIdentifier) = [t] ∧
      t.token.lexeme = x ∧ t.token.span = .ofSize 0 s.size := by
  have hall : (LexemeSeq.ofText l s.chars).all.flatMap Lexeme.unpacked =
      [x, { kind := .endOfFile, text := [] }] := by
    rw [h, LexemeSeq.all, List.cons_append, List.flatMap_cons, Lexeme.unpacked, hl]
    rfl
  have hp := (lexemes_tokens l s).2
  rw [hall] at hp
  obtain ⟨t, ts, hts, ht, hrest⟩ := List.map_eq_cons_iff.1 hp
  obtain ⟨e, rfl, he⟩ := List.map_eq_singleton_iff.1 hrest
  have hte : t.token.kind = .identifier := (congrArg Lexeme.kind ht).trans hk
  have hee : e.token.kind = .endOfFile := congrArg Lexeme.kind he
  have hmem : ∀ y ∈ [t, e], y ∈ (parse l s).tokens.toList ∧ y.token.isMissing = false := by
    intro y hy
    rw [← hts] at hy
    obtain ⟨hy, hm⟩ := List.mem_filter.1 hy
    exact ⟨hy, by simpa using hm⟩
  obtain ⟨htm, htp⟩ := hmem t List.mem_cons_self
  refine ⟨t, ?_, ht, ?_⟩
  · have hf : (fun y : PlacedToken => y.token.isIdentifier) =
        fun y => (y.token.kind == .identifier) && !y.token.isMissing := rfl
    rw [hf, ← List.filter_filter, hts, List.filter_cons_of_pos (by rw [hte]; rfl),
      List.filter_cons_of_neg (by rw [hee]; decide)]
    rfl
  · rcases stands_of_mem (Array.mem_toList_iff.1 htm) with ⟨hm, -⟩ | ⟨-, pre, hpre, hs⟩
    · rw [htp] at hm
      cases hm
    · obtain ⟨post, hpost, -⟩ := hs.fresh
      have hsize := congrArg Text.size hpost
      rw [ht, hx, Text.size_append, Text.size_append] at hsize
      have hstart : t.token.span.start = 0 := by omega
      have hz : t.token.lexeme.text.size = s.size := by rw [ht, hx]; rfl
      show Span.ofSize _ t.token.lexeme.text.size = _
      rw [hz]
      exact congrArg (Span.ofSize · s.size) hstart

end Tree

namespace Query

variable {a : Artifacts} {l : Language} {s : SourceText} {f : Seeds} {rate : Float} {name : Text}

/-- The search reaches a spelling. In brackets a name is escaped, and Visual Basic alone has
occurrences that reach over the beginning of a token. -/
theorem not_misses_spelling (h : Spelling name l s.chars) (ht : a.tree = .parse l s)
    (hx : a.index = .build f a.tree rate) (hl : a.languageName = l.name) (hn : name ≠ [])
    {t : PlacedToken} (htm : t ∈ a.tree.tokens) (hm : t.token.matches a.comparison name = true)
    (hw : t.token.text = s.chars) (hv : t.token.value = name) : ¬ Misses a name t := by
  cases l with
  | csharp => exact not_misses ht hx hl hn (Comparison.keepsLength_ordinal _) htm hm
  | visualBasic =>
      have hne : t.token.text ≠ t.token.value := by
        rw [hw, hv]
        exact h.ne_of_visualBasic
      have hwalk : Strategy.select a.index name = .treeWalk := by
        rw [hx]
        refine (Index.knows_build f a.tree rate).select_eq_treeWalk hn htm ?_ hne
        rw [ht]
        rwa [comparison_of_languageName hl] at hm
      rintro ⟨hs, -⟩
      rw [hwalk] at hs
      cases hs

/-- Every spelling of a name is one token, with all of the text and the name for its value. Where it
is the text of a document, a search for the name finds that token. -/
theorem tokensOf_spelling (h : Spelling name l s.chars) (hn : Identifier.IsName name)
    (ht : a.tree = .parse l s) (hx : a.index = .build f a.tree rate) (hl : a.languageName = l.name) :
    ∃ x, LexemeSeq.ofText l s.chars = ⟨[x], { kind := .endOfFile, text := [] }⟩ ∧
      (x.kind = .identifier ∧ x.text = s.chars ∧ x.value = name ∧ x.leading = [] ∧
        x.trailing = []) ∧
      ∃ t, (tokensOf a name false {}).1 = .ok [t] ∧ t.token.lexeme = x ∧
        t.token.isMissing = false ∧ t.token.span = .ofSize 0 s.size := by
  obtain ⟨x, hs, hk, htext, hv, hlead, htrail⟩ := h.ofText hn
  obtain ⟨t, hf, hlex, hspan⟩ := Tree.exists_filter_eq_singleton hs hk htext hlead
  have hc := comparison_of_languageName hl
  rw [← ht] at hf
  have hmem := List.mem_filter.1 (hf ▸ List.mem_singleton_self t)
  have htm : t ∈ a.tree.tokens := Array.mem_toList_iff.1 hmem.1
  have hid : t.token.isIdentifier = true := hmem.2
  have hmatch : t.token.matches a.comparison name = true := by
    rw [Token.matches, hid, Bool.true_and, Token.value, hlex, hv]
    exact Comparison.equal_iff_key_eq.2 rfl
  refine ⟨x, hs, ⟨hk, htext, hv, hlead, htrail⟩, t, ?_, hlex, ?_, hspan⟩
  · have hw : t.token.text = s.chars := (congrArg Lexeme.text hlex).trans htext
    have hv' : t.token.value = name := (congrArg Lexeme.value hlex).trans hv
    have hfind : (Strategy.select a.index name).finds a.tree a.comparison name t = true :=
      finds_iff.2 ⟨hmatch, not_misses_spelling h ht hx hl hn.ne_nil htm hmatch hw hv'⟩
    have hfilter : a.tree.tokens.toList.filter
        ((Strategy.select a.index name).finds a.tree a.comparison name) = [t] := by
      have hand (y : PlacedToken) :
          ((Strategy.select a.index name).finds a.tree a.comparison name y &&
            y.token.isIdentifier) =
              (Strategy.select a.index name).finds a.tree a.comparison name y := by
        cases hy : (Strategy.select a.index name).finds a.tree a.comparison name y with
        | false => rfl
        | true => exact (Bool.and_eq_true_iff.1 (finds_iff.1 hy).1).1
      rw [← List.filter_congr fun y _ => hand y, ← List.filter_filter, hf,
        List.filter_cons_of_pos hfind]
      rfl
    rw [tokensOf_parse ht hx hl hn.ne_nil, hfilter]
  · simpa using (Bool.and_eq_true_iff.1 hid).2

theorem tokensOf_spelling_mixed :
    let name : Text := ['a', 's']
    let s := SourceText.ofText "@\\u0061\\U00000073".toList 0
    let a := Artifacts.ofTree "a.cs" (.parse .csharp s)
    Spelling name .csharp s.chars ∧ Identifier.IsName name ∧
      ∃ t, (tokensOf a name false {}).1 = .ok [t] ∧ t.token.span = .ofSize 0 17 := by
  intro name s a
  have ha : Spells 'a' "\\u0061".toList := @Spells.short _ "0061".toList rfl (by decide)
  have hs : Spells 's' "\\U00000073".toList := @Spells.long _ "00000073".toList rfl
  have h : Spelling name .csharp s.chars := .signed (.cons ha (.cons hs .nil))
  have hn : Identifier.IsName name := ⟨by decide, List.forall_mem_singleton.2 (by decide)⟩
  obtain ⟨-, -, -, t, ht, -, -, hspan⟩ := tokensOf_spelling (a := a) h hn rfl rfl rfl
  exact ⟨h, hn, t, ht, hspan⟩

end Query

end Xref
