import Xref.Proofs.Tree.Formed
import Xref.Proofs.Tree.Lossless

/-!
# The heads of types and constructors

The parser reads the name of a type behind the attributes, the modifiers and the word for a type
(`NamesType`), and the `New` of a constructor behind `Sub` (`NamesConstructor`). Where that is can
be told from what the text has of the node alone, so there is only one such place.

What the parsers promise of outlines (`CSharp.promise`, `VisualBasic.promise`) becomes here what the
nodes of a tree begin with, and which of their children is the first name or the first `New`.
-/

namespace Xref

/-! ## The names that the parser reads -/

/-- The tokens that the text has, in document order. -/
def Node.present (n : Node) : List Token :=
  n.tokens.filter fun t => !t.isMissing

/-- What the text has of a node. -/
def Node.lexemes (n : Node) : List Lexeme :=
  n.present.map Token.lexeme

/-- The word for a type and its name stand behind the attributes and modifiers, of which each
lexeme is a child of its own. Behind the word `record` another word for a type may come. -/
structure NamesType (n : Node) (word name : Token) : Prop where
  elements : ∃ before more rest,
    n.elements = before ++ .token word :: (more ++ .token name :: rest) ∧
      before.length = CSharp.headLength 0 n.lexemes ∧
        (more = [] ∨ ∃ k, more = [.token k] ∧ k.kind = .typeKeyword)
  isWord : word.isMissing = false ∧ (word.kind = .typeKeyword ∨
    (word.kind = .identifier ∧ String.ofList word.value = "record"))
  isName : name.kind = .identifier

/-- `Sub` and `New` stand behind the attributes and modifiers. -/
structure NamesConstructor (n : Node) (before : List Token) (sub new : Token) : Prop where
  present : ∃ rest, n.present = before ++ sub :: new :: rest
  counted : before.length = VisualBasic.headLength true n.lexemes
  isSub : sub.kind = .subKeyword
  isNew : new.kind = .newKeyword

/-- What the parser reads as word and name is there once only. -/
theorem NamesType.unique {n : Node} {word word' name name' : Token} (h : NamesType n word name)
    (h' : NamesType n word' name') : word = word' ∧ name = name' := by
  obtain ⟨before, more, rest, he, hl, hm⟩ := h.elements
  obtain ⟨before', more', rest', he', hl', hm'⟩ := h'.elements
  obtain ⟨-, ht⟩ := List.append_inj (he.symm.trans he') (hl.trans hl'.symm)
  obtain ⟨hw, ht⟩ := List.cons.inj ht
  refine ⟨Element.token.inj hw, ?_⟩
  have hne {k x : Token} (hk : k.kind = .typeKeyword) (hx : x.kind = .identifier)
      {rest rest' : List Element} (h : .token k :: rest = .token x :: rest') : False := by
    rw [Element.token.inj (List.cons.inj h).1, hx] at hk
    cases hk
  rcases hm with rfl | ⟨k, rfl, hk⟩ <;> rcases hm' with rfl | ⟨k', rfl, hk'⟩
  · exact Element.token.inj (List.cons.inj ht).1
  · exact (hne hk' h.isName ht.symm).elim
  · exact (hne hk h'.isName ht).elim
  · exact Element.token.inj (List.cons.inj (List.cons.inj ht).2).1

/-! ## Outlines in their place -/

namespace Outline

variable (o p : Outline) (n : Tally)

theorem after_append : (o ++ p).after n = p.after (o.after n) := by
  induction o generalizing n with
  | nil => rfl
  | token l r ih => exact ih _
  | missing k r ih => exact ih _
  | node k c r _ ih => exact ih _

theorem length_elements : (o.place n).elements.length = o.width := by
  induction o generalizing n with
  | nil => rfl
  | token l r ih => exact congrArg (· + 1) (ih _)
  | missing k r ih => exact congrArg (· + 1) (ih _)
  | node k c r _ ih => exact congrArg (· + 1) (ih _)

theorem tokens_append : ((o ++ p).place n).tokens =
    (o.place n).tokens ++ (p.place (o.after n)).tokens := by
  induction o generalizing n with
  | nil => rfl
  | token l r ih => exact congrArg (_ :: ·) (ih (n.afterToken l))
  | missing k r ih => exact congrArg (_ :: ·) (ih (n.afterToken (.absent k)))
  | node k c r _ ihr =>
      rw [node_append, place_node, Forest.tokens, ihr, place_node, Forest.tokens, List.append_assoc]
      rfl

/-- Tokens stand one after the other. -/
theorem pairwise_tokens :
    (o.place n).tokens.Pairwise fun x y => x.span.stop ≤ y.span.start := by
  have hsub (ts : List Token) : ts.Sublist (ts.flatMap Token.unpacked) := by
    induction ts with
    | nil => exact .slnil
    | cons t ts ih => exact (List.sublist_append_right _ [t]).append ih
  have hl := (o.laid_place n { node := ⟨⟨0, .compilationUnit, 0⟩, .nil⟩, ancestors := [] }).pairwise
  rw [Forest.map_token_placedTokens] at hl
  exact (hl.imp And.right).sublist (hsub _)

variable {o n}

theorem Lacks.elements {k : TokenKind} (h : o.Lacks k) {t : Token}
    (ht : .token t ∈ (o.place n).elements) : t.kind ≠ k := by
  induction o generalizing n with
  | nil => cases ht
  | token l r ih =>
      rcases List.mem_cons.1 ht with ht | ht
      · rw [Element.token.inj ht]
        exact h.1
      · exact ih h.2 ht
  | missing m r ih =>
      rcases List.mem_cons.1 ht with ht | ht
      · rw [Element.token.inj ht]
        exact h.1
      · exact ih h.2 ht
  | node m c r _ ih =>
      rcases List.mem_cons.1 ht with ht | ht
      · cases ht
      · exact ih h ht

/-- No parser notes that a `New` is missing. -/
theorem Formed.isMissing_of_new {P : Promise} {x : List Opened} (h : o.Formed P x) {t : Token}
    (ht : .token t ∈ (o.place n).elements) (hk : t.kind = .newKeyword) : t.isMissing = false := by
  induction o generalizing n with
  | nil => cases ht
  | token l r ih =>
      rcases List.mem_cons.1 ht with ht | ht
      · rw [Element.token.inj ht]
        rfl
      · exact ih h ht
  | missing m r ih =>
      rcases List.mem_cons.1 ht with ht | ht
      · rw [Element.token.inj ht] at hk
        exact absurd hk h.1
      · exact ih h.2 ht
  | node m c r _ ih =>
      rcases List.mem_cons.1 ht with ht | ht
      · cases ht
      · exact ih h.2 ht

end Outline

theorem Node.lexemes_of_place {n : Node} {c : Outline} {m : Tally} (hc : n.children = c.place m) :
    n.lexemes = c.lexemes := by
  rw [Node.lexemes, Node.present, Node.tokens, hc, Outline.lexemes_place]

/-- A child that passes is the first, if none of those before it passes. -/
theorem Node.find?_childTokens {n : Node} {q : Token → Bool} {before rest : List Element}
    {t : Token} (he : n.elements = before ++ .token t :: rest)
    (hb : ∀ u, .token u ∈ before → q u = false) (ht : q t = true) :
    n.childTokens.find? q = some t := by
  rw [childTokens, he, List.filterMap_append, List.find?_append,
    List.find?_eq_none.2 fun u hu => ?_]
  · exact List.find?_cons_of_pos ht
  · obtain ⟨e, heb, hu⟩ := List.mem_filterMap.1 hu
    cases e with
    | token v =>
        cases hu
        exact Bool.eq_false_iff.1 (hb u heb)
    | node m => cases hu

theorem Tally.stop_token_le (n : Tally) (l : Lexeme) (b : Bool) :
    (n.token l b).span.stop ≤ (n.afterToken l).offset := by
  show n.offset + (Lead.sources l.leading).size + l.text.size ≤ n.offset + l.source.size
  rw [Lexeme.source, Text.size_append, Text.size_append]
  omega

theorem Tally.le_start_token (n : Tally) (l : Lexeme) (b : Bool) :
    n.offset ≤ (n.token l b).span.start :=
  Nat.le_add_right _ _

namespace CSharp

theorem IsTypeWord.place {word : Outline} (h : IsTypeWord word) (n : Tally) :
    ∃ t more, (word.place n).elements = .token t :: more ∧
      (more = [] ∨ ∃ k, more = [.token k] ∧ k.kind = .typeKeyword) ∧
      t.isMissing = false ∧ (t.kind = .typeKeyword ∨
        (t.kind = .identifier ∧ String.ofList t.value = "record")) ∧
      t.span.stop ≤ (word.after n).offset := by
  cases h with
  | keyword w hw => exact ⟨_, _, rfl, .inl rfl, rfl, .inl hw, n.stop_token_le w false⟩
  | record w hw hv => exact ⟨_, _, rfl, .inl rfl, rfl, .inr ⟨hw, hv⟩, n.stop_token_le w false⟩
  | recordOf w k hw hv hk =>
      refine ⟨_, _, rfl, .inr ⟨_, rfl, hk⟩, rfl, .inr ⟨hw, hv⟩, ?_⟩
      exact Nat.le_trans (n.stop_token_le w false) (Nat.le_add_right _ _)

theorem IsName.place {it : Outline} {name : Text} (h : IsName it name) (n : Tally) :
    ∃ t, (it.place n).elements = [.token t] ∧ t.kind = .identifier ∧ t.value = name ∧
      n.offset ≤ t.span.start := by
  cases h with
  | ofLexeme l hl => exact ⟨_, rfl, hl, rfl, n.le_start_token l false⟩
  | missing => exact ⟨_, rfl, rfl, rfl, n.le_start_token (.absent .identifier) true⟩

variable {n : Node} {c : Outline} {m : Tally} {name : Text}

/-- What the children of a type begin with is what the parser reads, and the first name among them
is the word, if the word is a name, or else the name. -/
theorem BeginsType.place (h : BeginsType name c) (hc : n.children = c.place m) :
    ∃ word x, NamesType n word x ∧ x.value = name ∧ word.span.stop ≤ x.span.start ∧
      (word.kind ≠ .typeKeyword → n.childTokens.find? Token.isIdentifier = some word) ∧
      (word.kind = .typeKeyword → x.isMissing = false →
        n.childTokens.find? Token.isIdentifier = some x) := by
  obtain ⟨before, word, it, rest, rfl, hb, hl, hw, hi⟩ := h
  obtain ⟨w, more, hwe, hm, hwm, hwk, hws⟩ := hw.place (before.after m)
  obtain ⟨x, hxe, hxk, hxv, hxs⟩ := hi.place (word.after (before.after m))
  have he : n.elements = (before.place m).elements ++ .token w :: (more ++ .token x ::
      (rest.place (it.after (word.after (before.after m)))).elements) := by
    simp only [Node.elements, hc, Outline.elements_append, Outline.after_append, hwe, hxe,
      List.append_assoc, List.cons_append, List.nil_append]
  have hnone {t : Token} (ht : .token t ∈ (before.place m).elements) : t.isIdentifier = false := by
    rw [Token.isIdentifier, beq_eq_false_iff_ne.2 (hb.names.lacks.elements ht)]
    rfl
  refine ⟨w, x, ⟨⟨_, more, _, he, ?_, hm⟩, ⟨hwm, hwk⟩, hxk⟩, hxv, Nat.le_trans hws hxs, ?_, ?_⟩
  · rw [Outline.length_elements, hb.width, Node.lexemes_of_place hc, hl]
  · intro hk
    refine Node.find?_childTokens he (fun t ht => hnone ht) ?_
    rw [Token.isIdentifier, (hwk.resolve_left hk).1, hwm]
    rfl
  · intro hk hx
    have hother {t : Token} (ht : t.kind = .typeKeyword) : t.isIdentifier = false := by
      rw [Token.isIdentifier, ht]
      rfl
    rw [← List.cons_append, ← List.append_assoc] at he
    refine Node.find?_childTokens he (fun t ht => ?_) ?_
    · rcases List.mem_append.1 ht with ht | ht
      · exact hnone ht
      · rcases List.mem_cons.1 ht with ht | ht
        · rw [Element.token.inj ht]
          exact hother hk
        · rcases hm with rfl | ⟨k, rfl, hkk⟩
          · cases ht
          · rw [Element.token.inj (List.mem_singleton.1 ht)]
            exact hother hkk
    · rw [Token.isIdentifier, hxk, hx]
      rfl

theorem BeginsConstructor.place (h : BeginsConstructor name c) (hc : n.children = c.place m) :
    ∃ x, n.childTokens.find? (fun v => v.kind == .identifier) = some x ∧ x.isMissing = false ∧
      x.value = name := by
  obtain ⟨before, l, rest, rfl, hb, hk, hv⟩ := h
  have he : n.elements = (before.place m).elements ++ .token ((before.after m).token l false) ::
      (rest.place ((before.after m).afterToken l)).elements := by
    rw [Node.elements, hc, Outline.elements_append]
    rfl
  refine ⟨_, Node.find?_childTokens he (fun t ht => ?_) (beq_iff_eq.2 hk), rfl, hv⟩
  exact beq_eq_false_iff_ne.2 (hb.elements ht)

end CSharp

namespace VisualBasic

/-- A list is split at its first member of a kind in one way. -/
theorem eq_of_first {k : TokenKind} {u u' w w' : List Lexeme} {m m' : Lexeme}
    (h : u ++ m :: w = u' ++ m' :: w') (hm : m.kind = k) (hm' : m'.kind = k)
    (hu : ∀ l ∈ u, l.kind ≠ k) (hu' : ∀ l ∈ u', l.kind ≠ k) : u = u' := by
  have hsplit {u w : List Lexeme} {m : Lexeme} (hm : m.kind = k) (hu : ∀ l ∈ u, l.kind ≠ k) :
      (u ++ m :: w).takeWhile (fun l => l.kind != k) = u := by
    rw [List.takeWhile_append_of_pos fun l hl => bne_iff_ne.2 (hu l hl), List.takeWhile_cons_of_neg,
      List.append_nil]
    rw [hm, bne_self_eq_false]
    exact Bool.false_ne_true
  rw [← hsplit (w := w) hm hu, h, hsplit hm' hu']

variable {n : Node} {c : Outline} {m : Tally}

theorem BeginsConstructor.names (h : BeginsConstructor c) (hc : n.children = c.place m) :
    ∃ before sub new, NamesConstructor n before sub new := by
  obtain ⟨before, sub, new, rest, hl, hk, hs, hn, -⟩ := h
  have hc' := Node.lexemes_of_place hc
  rw [← hc'] at hk
  have hp : n.present.map Token.lexeme = before ++ sub :: new :: rest := hc'.trans hl
  obtain ⟨b, ts, hbt, rfl, hts⟩ := List.map_eq_append_iff.1 hp
  obtain ⟨x, xs, rfl, rfl, hxs⟩ := List.map_eq_cons_iff.1 hts
  obtain ⟨y, ys, rfl, rfl, -⟩ := List.map_eq_cons_iff.1 hxs
  exact ⟨b, x, y, ⟨ys, hbt⟩, by rw [hk, List.length_map], hs, hn⟩

/-- What stands at the top behind an outline is the token behind those of the outline. -/
theorem eq_token_of_present {a r : Outline} {l : Lexeme} {u w : List Token} {t : Token}
    (hc : n.children = (a ++ .token l r).place m) (hp : n.present = u ++ t :: w)
    (hu : a.lexemes = u.map Token.lexeme) : t = (a.after m).token l false := by
  have hat : n.present = (a.place m).tokens.filter (fun t => !t.isMissing) ++
      (a.after m).token l false ::
        (r.place ((a.after m).afterToken l)).tokens.filter (fun t => !t.isMissing) := by
    rw [Node.present, Node.tokens, hc, Outline.tokens_append, List.filter_append]
    rfl
  have hlen : u.length = ((a.place m).tokens.filter fun t => !t.isMissing).length := by
    rw [← List.length_map Token.lexeme, ← hu, ← a.lexemes_place m, List.length_map]
  exact (List.cons.inj (List.append_inj (hp.symm.trans hat) hlen).2).1

/-- The first `New` that the text has in a constructor is its first child of that kind, unless it
stands behind a dot. -/
theorem BeginsConstructor.place (h : BeginsConstructor c) (hc : n.children = c.place m)
    {u w : List Token} {t : Token} (hp : n.present = u ++ t :: w) (ht : t.kind = .newKeyword)
    (hu : ∀ v ∈ u, v.kind ≠ .newKeyword) (hd : ∀ d, u.getLast? = some d → d.kind ≠ .dot) :
    n.childTokens.find? (fun v => v.kind == .newKeyword) = some t := by
  obtain ⟨before, sub, new, rest, hl, -, -, -, u', m', w', he, hm', hu', hd'⟩ := h
  have hlt : u.map Token.lexeme ++ t.lexeme :: w.map Token.lexeme = u' ++ m' :: (w' ++ rest) := by
    have hp' : n.present.map Token.lexeme = before ++ [sub, new] ++ rest := by
      rw [List.append_assoc]
      exact (Node.lexemes_of_place hc).trans hl
    rw [hp, he, List.map_append, List.map_cons, List.append_assoc] at hp'
    exact hp'
  obtain rfl : u.map Token.lexeme = u' := by
    refine eq_of_first hlt ht hm' (fun l hl => ?_) hu'
    obtain ⟨v, hv, rfl⟩ := List.mem_map.1 hl
    exact hu v hv
  obtain ⟨a, r, rfl, ha, hlacks⟩ := hd' fun d hd' => by
    rw [List.getLast?_map] at hd'
    obtain ⟨v, hv, rfl⟩ := Option.map_eq_some_iff.1 hd'
    exact hd v hv
  rw [eq_token_of_present hc hp ha]
  have he : n.elements = (a.place m).elements ++ .token ((a.after m).token m' false) ::
      (r.place ((a.after m).afterToken m')).elements := by
    rw [Node.elements, hc, Outline.elements_append]
    rfl
  refine Node.find?_childTokens he (fun v hv => ?_) (beq_iff_eq.2 hm')
  exact beq_eq_false_iff_ne.2 (hlacks.elements hv)

end VisualBasic

/-! ## The heads in a tree -/

namespace Tree

variable {s : SourceText} {p : PlacedNode}

theorem beginsType (hp : p ∈ (parse .csharp s).nodes) (hk : p.kind = .classDeclaration) :
    ∃ (name : Text) (c : Outline) (n : Tally), p.node.children = c.place n ∧
      CSharp.BeginsType name c := by
  rcases stands_of_mem_nodes hp with h | h | ⟨name, x, ⟨-, c, n, hc, -, hh, -⟩, -⟩
  · cases hk.symm.trans h
  · cases hk.symm.trans h
  · rw [hk] at hh
    obtain ⟨name, -, hb⟩ := hh.kept rfl
    exact ⟨name, c, n, hc, hb⟩

/-- The name that tells a constructor is that of the type around it. -/
theorem beginsConstructor_csharp (hp : p ∈ (parse .csharp s).nodes)
    (hk : p.kind = .constructorDeclaration) :
    ∃ (name : Text) (c : Outline) (n : Tally) (q : PlacedNode),
      p.node.children = c.place n ∧ CSharp.BeginsConstructor name c ∧
      p.parent? = some q ∧ q.kind = .classDeclaration ∧
        ∃ (d : Outline) (k : Tally), q.node.children = d.place k ∧ CSharp.BeginsType name d := by
  rcases stands_of_mem_nodes hp with h | h | ⟨_, x, ⟨-, c, n, hc, -, hh, -⟩, hs⟩
  · cases hk.symm.trans h
  · cases hk.symm.trans h
  · rw [hk] at hh
    obtain ⟨name, outer, rfl, hb⟩ := hh.kept rfl
    cases hpa : p.ancestors with
    | nil =>
        rw [hpa] at hs
        exact hs.elim
    | cons a as =>
        rw [hpa] at hs
        obtain ⟨⟨hak, d, k, hd, -, hh', -⟩, -⟩ := hs
        obtain ⟨_, hn, hb'⟩ := hh'.kept rfl
        obtain rfl := Option.some.inj hn
        refine ⟨_, c, n, { node := a, ancestors := as }, hc, hb, ?_, hak, d, k, hd, hb'⟩
        rw [PlacedNode.parent?, hpa]

theorem beginsConstructor_visualBasic (hp : p ∈ (parse .visualBasic s).nodes)
    (hk : p.kind = .constructorDeclaration) :
    ∃ (c : Outline) (n : Tally), p.node.children = c.place n ∧
      VisualBasic.BeginsConstructor c := by
  rcases stands_of_mem_nodes hp with h | h | ⟨_, x, ⟨-, c, n, hc, -, hh, -⟩, -⟩
  · cases hk.symm.trans h
  · cases hk.symm.trans h
  · rw [hk] at hh
    exact ⟨c, n, hc, hh.kept rfl⟩

theorem isMissing_of_new {l : Language} (hp : p ∈ (parse l s).nodes)
    (hk : p.kind = .constructorDeclaration) {t : Token} (ht : t ∈ p.node.childTokens)
    (hn : t.kind = .newKeyword) : t.isMissing = false := by
  rcases stands_of_mem_nodes hp with h | h | ⟨_, x, ⟨-, c, n, hc, -, -, hf⟩, -⟩
  · cases hk.symm.trans h
  · cases hk.symm.trans h
  · rw [Node.mem_childTokens, hc] at ht
    exact hf.isMissing_of_new ht hn

end Tree

end Xref
