import Xref.Proofs.Tree.Lossless

/-!
# Finding a token from an offset

The table of tokens is in document order, those of directives and those that are missing included,
so the tokens that start at or before an offset are an initial piece of it. Halving the table finds
where that piece ends (`Tree.findToken?_eq`), and the token found is the last one in the piece.
-/

namespace Xref

/-- What a predicate with a boundary keeps is what stands before the boundary. -/
theorem filter_eq_take {α : Type} {p : α → Bool} {xs : List α} {n : Nat}
    (h : ∀ i (hi : i < xs.length), p xs[i] = true ↔ i < n) : xs.filter p = xs.take n := by
  have ht : (xs.take n).filter p = xs.take n := by
    refine List.filter_eq_self.2 fun x hx => ?_
    obtain ⟨i, hi, rfl⟩ := List.mem_take_iff_getElem.1 hx
    exact (h i (by omega)).2 (by omega)
  have hd : (xs.drop n).filter p = [] := by
    refine List.filter_eq_nil_iff.2 fun x hx hp => ?_
    obtain ⟨i, hi, rfl⟩ := List.mem_drop_iff_getElem.1 hx
    have := (h (n + i) (by omega)).1 hp
    omega
  calc xs.filter p = (xs.take n ++ xs.drop n).filter p := by rw [List.take_append_drop]
    _ = xs.take n := by rw [List.filter_append, ht, hd, List.append_nil]

namespace Tree

variable {t : Tree} {x y : PlacedToken}

theorem InOrder.next (ho : t.InOrder) {i : Nat} (hx : t.tokens[i]? = some x)
    (hy : t.tokens[i + 1]? = some y) : x.token.span.stop ≤ y.token.span.start := by
  obtain ⟨hi, rfl⟩ := Array.getElem?_eq_some_iff.1 hx
  obtain ⟨hj, rfl⟩ := Array.getElem?_eq_some_iff.1 hy
  exact (List.pairwise_iff_getElem.1 ho i (i + 1) hi hj (Nat.lt_succ_self i)).2

/-- What is found at an offset is the last of the tokens that start at or before it. -/
theorem InOrder.findToken?_eq_getLast? (ho : t.InOrder) (n : Nat) :
    t.findToken? n = (t.tokens.toList.filter fun x => x.token.span.start ≤ n).getLast? := by
  obtain ⟨i, hi, hb, hf⟩ := findToken?_eq ho n
  have hb' (j : Nat) (hj : j < t.tokens.toList.length) :
      decide (t.tokens.toList[j].token.span.start ≤ n) = true ↔ j < i :=
    decide_eq_true_iff.trans (hb j hj)
  rw [filter_eq_take hb', hf]
  cases i with
  | zero => rfl
  | succ i =>
      have hx : t.tokens[i]? = some t.tokens[i] := Array.getElem?_eq_getElem hi
      show t.tokens[i]? = _
      rw [List.take_add_one, Array.getElem?_toList, hx]
      exact List.getLast?_concat.symm

/-- Nothing is found before the first token and only there. -/
theorem InOrder.findToken?_eq_none (ho : t.InOrder) (h : t.tokens[0]? = some x) (n : Nat) :
    t.findToken? n = none ↔ n < x.token.span.start := by
  obtain ⟨i, hi, hb, hf⟩ := findToken?_eq ho n
  obtain ⟨h0, rfl⟩ := Array.getElem?_eq_some_iff.1 h
  have hs := hb 0 h0
  rw [hf]
  cases i with
  | zero => exact iff_of_true rfl (by omega)
  | succ i =>
      have hx : t.tokens[i]? = some t.tokens[i] := Array.getElem?_eq_getElem hi
      show t.tokens[i]? = none ↔ _
      rw [hx]
      exact iff_of_false nofun (by omega)

/-- Tokens stand one behind the other in the order of their table, and an offset finds the last one
that starts at or before it. -/
theorem findToken?_parse (l : Language) (s : SourceText) :
    let t := parse l s
    (∀ i x y, t.tokens[i]? = some x → t.tokens[i + 1]? = some y →
      x.token.span.stop ≤ y.token.span.start) ∧
    (∀ n, t.findToken? n =
      (t.tokens.toList.filter fun x => x.token.span.start ≤ n).getLast?) ∧
    (∃ x, t.tokens[0]? = some x ∧ ∀ n, t.findToken? n = none ↔ n < x.token.span.start) ∧
    ∀ x ∈ t.tokens, ∀ n, x.token.span.start ≤ n → n < x.token.span.stop →
      t.findToken? n = some x := by
  intro t
  have ho : t.InOrder := inOrder_parse l s
  refine ⟨fun i x y hx hy => ho.next hx hy, ho.findToken?_eq_getLast?, ?_,
    fun x hx n hs he => findToken?_of_contains ho hx hs he⟩
  obtain ⟨e, he, -⟩ := exists_end l s
  have hpos : 0 < t.tokens.size := Array.size_pos_of_mem (Array.mem_of_back? he)
  have h0 : t.tokens[0]? = some t.tokens[0] := Array.getElem?_eq_getElem hpos
  exact ⟨_, h0, ho.findToken?_eq_none h0⟩

end Tree

end Xref
