import Mathlib.Data.List.Nodup
import Xref.Proofs.Grammar.CSharp
import Xref.Proofs.Grammar.VisualBasic
import Xref.Proofs.Lexeme.Fresh
import Xref.Proofs.Tree.Layout
import Xref.Tree.Parse

/-!
# The tree of a text

Whatever the text, its tree is laid out from an outline of its lexemes (`Tree.exists_outline`). From
there come the facts that everything about trees rests on: no two nodes have the same number
(`Tree.node_inj`), tokens are numbered and stand in document order (`Tree.inOrder_parse`), a token
stands in the text where its span says (`Tree.stands_of_mem`), and the last token that starts at or
before an offset is the one that halving the table finds (`Tree.findToken?_of_contains`).
-/

namespace Xref

/-- What types and constructors of a language begin with, and what its lists of parameters
declare. -/
def Language.promise : Language → Promise
  | .csharp => CSharp.promise
  | .visualBasic => VisualBasic.promise

/-- Where members are numbered from zero on, the number of a member is its place. -/
theorem eq_of_map_eq_range {α : Type} {f : α → Nat} {xs : List α} {i : Nat} {x : α}
    (h : xs.map f = List.range xs.length) (hx : xs[i]? = some x) : f x = i := by
  have hi : some (f x) = (List.range xs.length)[i]? := by
    rw [← h, List.getElem?_map, hx]
    rfl
  rw [List.getElem?_range (List.getElem?_eq_some_iff.1 hx).1] at hi
  exact Option.some.inj hi

namespace Tree

/-- The root of a tree is laid out from an outline of the lexemes, and behind it stands the end. -/
theorem exists_outline_before_end (l : Language) (s : SourceText) :
    ∃ o : Outline, (parse l s).root = ⟨⟨0, .compilationUnit, 0⟩,
        (o ++ .token (LexemeSeq.ofText l s.chars).last .nil).place ⟨1, 0, 0⟩⟩ ∧
      o.lexemes = (LexemeSeq.ofText l s.chars).lexemes ∧ o.Formed l.promise [] := by
  have h : ∃ o : Outline, Event.ofLexemes l (LexemeSeq.ofText l s.chars) =
      (o ++ .token (LexemeSeq.ofText l s.chars).last .nil).events ∧
        o.lexemes = (LexemeSeq.ofText l s.chars).lexemes ∧ o.Formed l.promise [] := by
    cases l with
    | csharp => exact CSharp.exists_outline _ LexemeSeq.kind_ne_of_mem_scan
    | visualBasic => exact VisualBasic.exists_outline _
  obtain ⟨o, he, hl, hf⟩ := h
  refine ⟨o, ?_, hl, hf⟩
  show Node.rootOfEvents (Event.ofLexemes l (LexemeSeq.ofText l s.chars)) = _
  rw [Node.rootOfEvents, he, Forest.ofMarks_events]

/-- The tree of a text is an outline of its lexemes, laid out from the root. -/
theorem exists_outline (l : Language) (s : SourceText) :
    ∃ o : Outline, (parse l s).root = ⟨⟨0, .compilationUnit, 0⟩, o.place ⟨1, 0, 0⟩⟩ ∧
      o.lexemes = (LexemeSeq.ofText l s.chars).all ∧ o.Formed l.promise [] := by
  obtain ⟨o, hr, hl, hf⟩ := exists_outline_before_end l s
  refine ⟨o ++ .token (LexemeSeq.ofText l s.chars).last .nil, hr, ?_, ?_⟩
  · rw [Outline.lexemes_append, hl]
    rfl
  · exact Outline.formed_append.2 ⟨hf, trivial⟩

variable {l : Language} {s : SourceText}

/-! ## Nodes -/

theorem mem_nodes_iff {t : Tree} {p : PlacedNode} : p ∈ t.nodes ↔ p ∈ t.root.placedNodes := by
  rw [t.nodes_eq, List.mem_toArray]

theorem mem_tokens_iff {t : Tree} {x : PlacedToken} : x ∈ t.tokens ↔ x ∈ t.root.placedTokens := by
  rw [t.tokens_eq, List.mem_toArray]

theorem placedRoot_mem_nodes (t : Tree) : t.placedRoot ∈ t.nodes :=
  mem_nodes_iff.2 List.mem_cons_self

theorem id_placedRoot (l : Language) (s : SourceText) : (parse l s).placedRoot.id = 0 :=
  rfl

theorem parent_mem_nodes {t : Tree} {x : PlacedToken} (hx : x ∈ t.tokens) : x.parent ∈ t.nodes :=
  mem_nodes_iff.2 (Node.mem_placedTokens_iff.1 (mem_tokens_iff.1 hx)).1

/-- Nodes are numbered in the order of their table. -/
theorem ids_parse (l : Language) (s : SourceText) :
    (parse l s).root.placedNodes.map PlacedNode.id =
      List.range (parse l s).root.placedNodes.length := by
  obtain ⟨o, hr, -⟩ := exists_outline l s
  rw [hr]
  show _ :: ((o.place ⟨1, 0, 0⟩).placedNodes _).map PlacedNode.id = _
  rw [(o.ids_place ⟨1, 0, 0⟩ _).1, List.range_eq_range', Node.placedNodes, List.length_cons,
    List.range'_succ]
  rfl

theorem pairwise_ids (l : Language) (s : SourceText) :
    (parse l s).root.placedNodes.Pairwise fun p q => p.id < q.id := by
  have h : ((parse l s).root.placedNodes.map PlacedNode.id).Pairwise (· < ·) := by
    rw [ids_parse]
    exact List.pairwise_lt_range
  exact List.pairwise_map.1 h

theorem nodup_ids (l : Language) (s : SourceText) :
    ((parse l s).root.placedNodes.map PlacedNode.id).Nodup :=
  List.pairwise_map.2 ((pairwise_ids l s).imp Nat.ne_of_lt)

theorem id_of_getElem?_nodes {p : PlacedNode} {i : Nat} (h : (parse l s).nodes[i]? = some p) :
    p.id = i := by
  rw [nodes_eq, List.getElem?_toArray] at h
  exact eq_of_map_eq_range (ids_parse l s) h

/-- A node stands in the table at its number. -/
theorem getElem?_id {p : PlacedNode} (hp : p ∈ (parse l s).nodes) :
    (parse l s).nodes[p.id]? = some p := by
  obtain ⟨i, hi⟩ := Array.getElem?_of_mem hp
  rw [id_of_getElem?_nodes hi]
  exact hi

theorem node_inj {p q : PlacedNode} (hp : p ∈ (parse l s).nodes) (hq : q ∈ (parse l s).nodes)
    (h : p.id = q.id) : p = q := by
  rw [mem_nodes_iff] at hp hq
  exact List.inj_on_of_nodup_map (nodup_ids l s) hp hq h

/-! ## Tokens -/

/-- Tokens are numbered in document order and stand one after the other. -/
def InOrder (t : Tree) : Prop :=
  t.tokens.toList.Pairwise fun x y =>
    x.token.id < y.token.id ∧ x.token.span.stop ≤ y.token.span.start

theorem inOrder_parse (l : Language) (s : SourceText) : (parse l s).InOrder := by
  obtain ⟨o, hr, -⟩ := exists_outline l s
  have ho := (o.laid_place ⟨1, 0, 0⟩
    { node := ⟨⟨0, .compilationUnit, 0⟩, o.place ⟨1, 0, 0⟩⟩, ancestors := [] }).pairwise
  rw [InOrder, tokens_eq, hr]
  exact List.pairwise_map.1 ho

/-- A token that the text has stands in it where its span begins; the text lacks the others. -/
theorem stands_of_mem {x : PlacedToken} (hx : x ∈ (parse l s).tokens) :
    (x.token.isMissing = true ∧ ∃ k, x.token.lexeme = .absent k) ∨
      (x.token.isMissing = false ∧
        ∃ pre : Text, pre.size = x.token.span.start ∧ Stands s.chars pre x.token.lexeme) := by
  obtain ⟨o, hr, hl, -⟩ := exists_outline l s
  rw [mem_tokens_iff, hr] at hx
  have h₀ : Text.size [] = (⟨1, 0, 0⟩ : Tally).offset := rfl
  rcases o.spot_place _ h₀ (List.mem_map_of_mem hx) with h | ⟨hm, pre, hp, hn⟩
  · exact .inl h
  · refine .inr ⟨hm, pre, hn, ?_⟩
    rw [hl] at hp
    exact LexemeSeq.stands_ofText l s.chars _ hp

section

variable {t : Tree} {x y : PlacedToken}

theorem InOrder.cases (ho : t.InOrder) (hx : x ∈ t.tokens) (hy : y ∈ t.tokens) :
    x = y ∨ (x.token.id < y.token.id ∧ x.token.span.stop ≤ y.token.span.start) ∨
      (y.token.id < x.token.id ∧ y.token.span.stop ≤ x.token.span.start) := by
  obtain ⟨i, hi, rfl⟩ := List.getElem_of_mem (Array.mem_toList_iff.2 hx)
  obtain ⟨j, hj, rfl⟩ := List.getElem_of_mem (Array.mem_toList_iff.2 hy)
  rcases Nat.lt_trichotomy i j with h | rfl | h
  · exact .inr (.inl (List.pairwise_iff_getElem.1 ho i j hi hj h))
  · exact .inl rfl
  · exact .inr (.inr (List.pairwise_iff_getElem.1 ho j i hj hi h))

theorem InOrder.stop_le (ho : t.InOrder) (hx : x ∈ t.tokens) (hy : y ∈ t.tokens)
    (h : x.token.span.start < y.token.span.start) :
    x.token.span.stop ≤ y.token.span.start := by
  rcases ho.cases hx hy with rfl | ⟨-, hs⟩ | ⟨-, hs⟩
  · exact absurd h (Nat.lt_irrefl _)
  · exact hs
  · have := y.token.span.start_le_stop
    omega

/-- A predicate that holds of whatever comes before what it holds of has a boundary. -/
theorem exists_boundary {α : Type} {p : α → Bool} {xs : List α}
    (h : xs.Pairwise fun a b => p b = true → p a = true) :
    ∃ n ≤ xs.length, ∀ i (hi : i < xs.length), p xs[i] = true ↔ i < n := by
  induction xs with
  | nil => exact ⟨0, Nat.le_refl _, nofun⟩
  | cons a xs ih =>
      obtain ⟨ha, hp⟩ := List.pairwise_cons.1 h
      by_cases hpa : p a = true
      · obtain ⟨n, hn, hi⟩ := ih hp
        refine ⟨n + 1, Nat.succ_le_succ hn, fun i h => ?_⟩
        cases i with
        | zero => exact ⟨fun _ => Nat.succ_pos n, fun _ => hpa⟩
        | succ i => exact (hi i (Nat.lt_of_succ_lt_succ h)).trans Nat.succ_lt_succ_iff.symm
      · refine ⟨0, Nat.zero_le _, fun i h => ?_⟩
        refine ⟨fun hi => ?_, nofun⟩
        cases i with
        | zero => exact absurd hi hpa
        | succ i => exact absurd (ha _ (List.getElem_mem _) hi) hpa

/-- What is found at an offset starts at or before it, and what starts later lies behind it. -/
theorem findToken?_eq (ho : t.InOrder) (n : Nat) :
    ∃ i ≤ t.tokens.size, (∀ j (hj : j < t.tokens.size), t.tokens[j].token.span.start ≤ n ↔ j < i) ∧
      t.findToken? n = match i with
        | 0 => none
        | i + 1 => t.tokens[i]? := by
  have hm : t.tokens.toList.Pairwise fun x y =>
      decide (y.token.span.start ≤ n) = true → decide (x.token.span.start ≤ n) = true := by
    refine ho.imp fun {x y} h hy => ?_
    have := of_decide_eq_true hy
    have := x.token.span.start_le_stop
    exact decide_eq_true (by omega)
  obtain ⟨i, hi, hb⟩ :=
    exists_boundary (p := fun x : PlacedToken => decide (x.token.span.start ≤ n)) hm
  have hb' (j : Nat) (hj : j < t.tokens.size) :
      decide (t.tokens[j].token.span.start ≤ n) = true ↔ j < i := hb j hj
  have hp : partitionPoint (fun x => decide (x.token.span.start ≤ n)) t.tokens = i :=
    partitionPoint_eq hi hb'
  refine ⟨i, hi, fun j hj => decide_eq_true_iff.symm.trans (hb' j hj), ?_⟩
  cases i <;> simp only [findToken?, hp]

theorem mem_of_findToken? (ho : t.InOrder) {n : Nat} (h : t.findToken? n = some x) :
    x ∈ t.tokens ∧ x.token.span.start ≤ n := by
  obtain ⟨i, -, hb, hf⟩ := findToken?_eq ho n
  rw [hf] at h
  cases i with
  | zero => cases h
  | succ i =>
      obtain ⟨hi, rfl⟩ := Array.getElem?_eq_some_iff.1 h
      exact ⟨Array.getElem_mem hi, (hb i hi).2 (Nat.lt_succ_self i)⟩

/-- The token around an offset is found there. -/
theorem findToken?_of_contains (ho : t.InOrder) (hx : x ∈ t.tokens) {n : Nat}
    (h : x.token.span.start ≤ n) (h' : n < x.token.span.stop) : t.findToken? n = some x := by
  obtain ⟨i, hi, hb, hf⟩ := findToken?_eq ho n
  obtain ⟨j, hj, rfl⟩ := Array.getElem_of_mem hx
  have hji := (hb j hj).1 h
  cases i with
  | zero => cases hji
  | succ i =>
      rw [hf]
      refine Array.getElem?_eq_some_iff.2 ⟨hi, ?_⟩
      rcases Nat.lt_or_eq_of_le (Nat.le_of_lt_succ hji) with hlt | rfl
      · have hs := (List.pairwise_iff_getElem.1 ho j i hj hi hlt).2
        have hn := (hb i hi).2 (Nat.lt_succ_self i)
        simp only [Array.getElem_toList] at hs
        omega
      · rfl

end

end Tree

end Xref
