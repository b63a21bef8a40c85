import Xref.Proofs.Lexeme.Origin
import Xref.Proofs.Tree.Parse

/-!
# Names in a tree stand for names

A token of a tree is made of the text at which it stands (`Tree.origin_of_mem`), so what it is called
can be checked against the text. Names are well formed, wherever they stand and whether they are
spelled with escapes, with a sign or between brackets. The one exception is told by the text alone: a
C# sign in front of an escape for a character that begins no name is a name without the escape, and
stands for nothing (`Tree.identifier_names`).
-/

namespace Xref

open Identifier

namespace Tree

variable {l : Language} {s : SourceText} {x : PlacedToken}

/-- A token that the text has is made of the text from its place on. -/
theorem origin_of_mem (hx : x ∈ (parse l s).tokens) (hm : x.token.isMissing = false) :
    ∃ rest, s.chars.dropBytes? x.token.span.start = some rest ∧ Origin l x.token.lexeme rest := by
  obtain ⟨o, hr, hl, -⟩ := exists_outline l s
  rw [mem_tokens_iff, hr] at hx
  have h₀ : Text.size [] = (⟨1, 0, 0⟩ : Tally).offset := rfl
  rcases o.spot_place _ h₀ (List.mem_map_of_mem hx) with ⟨h, -⟩ | ⟨-, pre, hp, hn⟩
  · rw [hm] at h
    cases h
  · rw [hl] at hp
    obtain ⟨rest, hw, ho⟩ := LexemeSeq.made_ofText l s.chars _ hp
    exact ⟨rest, Text.dropBytes?_eq_some_iff.2 ⟨pre, hw, hn⟩, ho⟩

/-- A name that the text has stands for a well-formed name exactly where no stray sign is. A stray
sign is a name by itself, and stands for nothing. -/
theorem identifier_names (hx : x ∈ (parse l s).tokens) (hi : x.token.isIdentifier = true) :
    ∃ rest, s.chars.dropBytes? x.token.span.start = some rest ∧
      (IsName x.token.value ↔ ¬ StraySign l rest) ∧
      (StraySign l rest → x.token.text = ['@'] ∧ x.token.value = []) := by
  rw [Token.isIdentifier, Bool.and_eq_true, beq_iff_eq, Bool.not_eq_true'] at hi
  obtain ⟨rest, hr, ho⟩ := origin_of_mem hx hi.2
  refine ⟨rest, hr, ⟨fun hn hs => ?_, ho.isName hi.1⟩, ho.of_stray hi.1⟩
  exact hn.ne_nil (ho.of_stray hi.1 hs).2

/-- The escape is that of a digit, so the sign stands for nothing; behind it a name is spelled. -/
theorem identifier_names_stray :
    let s := SourceText.ofText "@\\u0030".toList 0
    ∃ x ∈ (parse .csharp s).tokens, x.token.isIdentifier = true ∧ x.token.span.start = 0 ∧
      x.token.text = ['@'] ∧ x.token.value = [] ∧ ¬ IsName x.token.value := by
  intro s
  have h : ((parse .csharp s).tokens.toList.any fun x =>
      x.token.isIdentifier && x.token.span.start == 0) = true := by
    decide +kernel
  obtain ⟨x, hx, hb⟩ := List.any_eq_true.1 h
  rw [Bool.and_eq_true, beq_iff_eq] at hb
  rw [Array.mem_toList_iff] at hx
  obtain ⟨rest, hr, hn, ht⟩ := identifier_names hx hb.1
  rw [hb.2] at hr
  obtain rfl : s.chars = rest := Option.some.inj hr
  have hs : StraySign .csharp s.chars :=
    ⟨rfl, "u0030".toList, '0', 5, by decide, by decide, by decide⟩
  exact ⟨x, hx, hb.1, hb.2, (ht hs).1, (ht hs).2, fun h => hn.1 h hs⟩

end Tree

end Xref
