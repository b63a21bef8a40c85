import Xref.Proofs.Grammar.Names
import Xref.Proofs.Tree.Formed

/-!
# Every name in a tree is classified, or overlooked

What a name is can be read off where it stands: it refers or is declared in a node of its own, is
the alias of an import, or names a type or constructor (`PlacedToken.IsClassified`). A name that
stands anywhere else is invisible to everything that looks for symbols, and nothing tells.

The parsers move a name where the language allows it (`Event.Tidy`), and the tree keeps that
(`Tree.exists_allows`). In C# every name is classified. In Visual Basic there are exactly two sorts of
names that are not (`PlacedToken.IsOverlooked`): a modifier that begins the line of an import, and a
name that was taken for `Namespace`, `Sub`, `Function`, `End` or the word behind it because an
initializer stands among the attributes of the line (`Tree.identifiers_classified`).
-/

namespace Xref

/-! ## The events of a text -/

namespace Event

/-- In every text each name is moved where the language allows it. -/
theorem tidy_ofLexemes (l : Language) (s : Text) :
    Tidy l (ofLexemes l (LexemeSeq.ofText l s)).reverse := by
  have hlast (hi : (LexemeSeq.ofText l s).last.kind = .identifier) : False := by
    rw [LexemeSeq.ofText, LexemeSeq.kind_last_scan] at hi
    cases hi
  cases l with
  | csharp =>
      have h := CSharp.State.tidy_run
        (s := ⟨.ofLexemes (LexemeSeq.ofText .csharp s).lexemes, []⟩) trivial
      rw [ofLexemes, CSharp.events, List.reverse_append, List.reverse_reverse]
      exact ⟨fun hi => (hlast hi).elim, h⟩
  | visualBasic =>
      have h := VisualBasic.State.tidy_run
        (s := ⟨.ofLexemes (LexemeSeq.ofText .visualBasic s).lexemes, [], false⟩)
        (Grown.refl _) trivial
      simp only [ofLexemes, VisualBasic.events, List.reverse_append, List.reverse_reverse]
      exact ⟨fun hi => (hlast hi).elim, h.closeMany _⟩

end Event

/-! ## Outlines in their places -/

namespace Outline

variable {l : Language} {o b : Outline} {k : NodeKind} {n : Tally} {as : List Node}

/-- What a node holds that is no directive is tidy. -/
theorem Tidy.of_mem_placedNodes {p : PlacedNode} (h : o.Tidy l k b)
    (hp : p ∈ (o.place n).placedNodes as) :
    p.owner ≠ none ∨ ∃ c m, p.node.children = place m c ∧ c.Tidy l p.kind nil := by
  have hd {t : Token} (h : p ∈ t.placedDirectives) : p.owner ≠ none := by
    have hs : p.owner.isSome = true := (Token.mem_placedDirectives h).2.2.2.1
    exact Option.isSome_iff_ne_none.1 hs
  induction o generalizing k b n as with
  | nil => cases hp
  | token t r ih =>
      rcases List.mem_append.1 hp with hp | hp
      · exact .inl (hd hp)
      · exact ih h.2 hp
  | missing m r ih =>
      rcases List.mem_append.1 hp with hp | hp
      · exact .inl (hd hp)
      · exact ih h hp
  | node m c r ihc ihr =>
      rcases List.mem_cons.1 hp with rfl | hp
      · exact .inr ⟨c, _, rfl, h.1⟩
      · rcases List.mem_append.1 hp with hp | hp
        · exact ihc h.1 hp
        · exact ihr h.2 hp

/-- A name stands behind an outline behind which it is allowed. -/
theorem Tidy.of_mem_elements {t : Token} (h : o.Tidy l k b) (ht : .token t ∈ (o.place n).elements)
    (hi : t.isIdentifier = true) :
    ∃ a post, (o.place n).elements = (place n a).elements ++ .token t :: post ∧
      l.Allows k (b ++ a) t.lexeme := by
  rw [Token.isIdentifier, Bool.and_eq_true, beq_iff_eq, Bool.not_eq_true'] at hi
  induction o generalizing b n with
  | nil => cases ht
  | token u r ih =>
      rcases List.mem_cons.1 ht with ht | ht
      · obtain rfl := Element.token.inj ht
        exact ⟨nil, _, rfl, (append_nil b).symm ▸ h.1 hi.1⟩
      · obtain ⟨a, post, he, ha⟩ := ih h.2 ht
        rw [append_assoc] at ha
        exact ⟨token u a, post, congrArg _ he, ha⟩
  | missing m r ih =>
      rcases List.mem_cons.1 ht with ht | ht
      · obtain rfl := Element.token.inj ht
        cases hi.2
      · obtain ⟨a, post, he, ha⟩ := ih h ht
        rw [append_assoc] at ha
        exact ⟨missing m a, post, congrArg _ he, ha⟩
  | node m c r _ ih =>
      rcases List.mem_cons.1 ht with ht | ht
      · cases ht
      · obtain ⟨a, post, he, ha⟩ := ih h.2 ht
        rw [append_assoc] at ha
        exact ⟨node m c a, post, congrArg _ he, ha⟩

/-- An initializer at the top is a node there. -/
theorem HasInitializer.exists_node (h : o.HasInitializer) (n : Tally) :
    ∃ m, .node m ∈ (o.place n).elements ∧ m.kind = .constructorInitializer := by
  induction o generalizing n with
  | nil => exact h.elim
  | token u r ih =>
      obtain ⟨m, hm, hk⟩ := ih h (n.afterToken u)
      exact ⟨m, List.mem_cons_of_mem _ hm, hk⟩
  | missing u r ih =>
      obtain ⟨m, hm, hk⟩ := ih h (n.afterToken (.absent u))
      exact ⟨m, List.mem_cons_of_mem _ hm, hk⟩
  | node u c r _ ih =>
      rcases h with h | h
      · exact ⟨_, List.mem_cons_self, h⟩
      · obtain ⟨m, hm, hk⟩ := ih h (c.after (afterOpen n))
        exact ⟨m, List.mem_cons_of_mem _ hm, hk⟩

end Outline

/-! ## Names -/

/-- What the name is can be read off where it stands: it is alone in a node that refers or declares,
or it is the alias of an import, or it stands in the type or constructor that it names. -/
def PlacedToken.IsClassified (x : PlacedToken) : Prop :=
  (x.parent.kind = .identifierName ∨ x.parent.kind = .declarator) ∧
      x.parent.node.elements = [.token x.token] ∨
    x.parent.kind = .nameEquals ∨ x.parent.kind = .classDeclaration ∨
      x.parent.kind = .constructorDeclaration

/-- The name was moved without being looked at: it begins an import and is a modifier, or it stands
in a namespace or method behind an initializer. -/
def PlacedToken.IsOverlooked (x : PlacedToken) : Prop :=
  x.parent.kind = .usingDirective ∧ VisualBasic.isModifier x.token.lexeme = true ∧
      (∃ post, x.parent.node.elements = .token x.token :: post) ∨
    (x.parent.kind = .namespaceDeclaration ∨ x.parent.kind = .methodDeclaration) ∧
      ∃ pre post n, x.parent.node.elements = pre ++ .token x.token :: post ∧ .node n ∈ pre ∧
        n.kind = .constructorInitializer

namespace Tree

variable {l : Language} {s : SourceText} {p : PlacedNode} {x : PlacedToken}

/-- What a node of the text holds is tidy. -/
theorem exists_tidy (hp : p ∈ (parse l s).nodes) (ho : p.owner = none) :
    ∃ c m, p.node.children = Outline.place m c ∧ c.Tidy l p.kind .nil := by
  obtain ⟨o, he⟩ : ∃ o : Outline, Event.ofLexemes l (LexemeSeq.ofText l s.chars) = o.events := by
    cases l with
    | csharp =>
        obtain ⟨o, he, -⟩ := CSharp.exists_outline (LexemeSeq.ofText .csharp s.chars)
          LexemeSeq.kind_ne_of_mem_scan
        exact ⟨_, he⟩
    | visualBasic =>
        obtain ⟨o, he, -⟩ := VisualBasic.exists_outline (LexemeSeq.ofText .visualBasic s.chars)
        exact ⟨_, he⟩
  have ht := Event.tidy_ofLexemes l s.chars
  rw [he, ← List.append_nil o.events.reverse] at ht
  have ht : o.Tidy l .compilationUnit .nil := (ht.outline rfl).1
  have hr : (parse l s).root = ⟨⟨0, .compilationUnit, 0⟩, o.place ⟨1, 0, 0⟩⟩ := by
    show Node.rootOfEvents (Event.ofLexemes l (LexemeSeq.ofText l s.chars)) = _
    rw [Node.rootOfEvents, he, Forest.ofMarks_events]
  rw [mem_nodes_iff, hr] at hp
  rcases List.mem_cons.1 hp with rfl | hp
  · exact ⟨o, _, rfl, ht⟩
  · exact (ht.of_mem_placedNodes hp).resolve_left (absurd ho)

/-- A name stands in its node behind what it is allowed behind. -/
theorem exists_allows (hx : x ∈ (parse l s).tokens) (hi : x.token.isIdentifier = true)
    (hd : x.inDirective = false) :
    ∃ a m post, x.parent.node.elements = (Outline.place m a).elements ++ .token x.token :: post ∧
      l.Allows x.parent.kind a x.token.lexeme := by
  obtain ⟨hp, ht, ho⟩ := Node.mem_placedTokens_iff.1 (mem_tokens_iff.1 hx)
  have ho : x.parent.owner = none := by
    rw [hd] at ho
    exact Option.isNone_iff_eq_none.1 (by simpa using ho.symm)
  obtain ⟨c, m, hc, hy⟩ := exists_tidy (mem_nodes_iff.2 hp) ho
  rw [Node.mem_childTokens, hc] at ht
  obtain ⟨a, post, he, ha⟩ := hy.of_mem_elements ht hi
  exact ⟨a, m, post, by rw [Node.elements, hc, he], ha⟩

/-- A node for a name holds the name and nothing else. -/
theorem elements_of_name (hp : p ∈ (parse l s).nodes)
    (hk : p.kind = .identifierName ∨ p.kind = .declarator) :
    ∃ t : Token, p.node.elements = [.token t] ∧ t.isIdentifier = true := by
  obtain ⟨t, hc, ht, hm⟩ := children_of_name hp hk
  refine ⟨t, ?_, ?_⟩
  · rw [Node.elements, hc]
    rfl
  · rw [Token.isIdentifier, ht, hm]
    rfl

theorem isClassified_of_takesNames (hx : x ∈ (parse l s).tokens)
    (hk : x.parent.kind.takesNames = true) : x.IsClassified := by
  have alone (hk : x.parent.kind = .identifierName ∨ x.parent.kind = .declarator) :
      x.IsClassified := by
    obtain ⟨-, ht, -⟩ := Node.mem_placedTokens_iff.1 (mem_tokens_iff.1 hx)
    obtain ⟨t, he, -⟩ := elements_of_name (parent_mem_nodes hx) hk
    have ht : .token x.token ∈ x.parent.node.elements := Node.mem_childTokens.1 ht
    rw [he, List.mem_singleton] at ht
    exact .inl ⟨hk, ht ▸ he⟩
  unfold NodeKind.takesNames at hk
  split at hk
  · next h => exact alone (.inl h)
  · next h => exact alone (.inr h)
  · next h => exact .inr (.inl h)
  · next h => exact .inr (.inr (.inl h))
  · next h => exact .inr (.inr (.inr h))
  · cases hk

theorem not_isClassified (h : x.IsOverlooked) : ¬ x.IsClassified := by
  have hk : x.parent.kind = .usingDirective ∨ x.parent.kind = .namespaceDeclaration ∨
      x.parent.kind = .methodDeclaration := by
    rcases h with ⟨h, -⟩ | ⟨h, -⟩
    · exact .inl h
    · exact .inr h
  rcases hk with hk | hk | hk <;>
    rintro (⟨h | h, -⟩ | h | h | h) <;> cases hk.symm.trans h

/-- A name is classified unless Visual Basic overlooks it, and every node for a name holds one name
and nothing else. -/
theorem identifiers_classified (l : Language) (s : SourceText) :
    (∀ x ∈ (parse l s).tokens, x.token.isIdentifier = true → x.inDirective = false →
        (x.IsClassified ↔ ¬ (l = .visualBasic ∧ x.IsOverlooked))) ∧
      ∀ p ∈ (parse l s).nodes, p.kind = .identifierName ∨ p.kind = .declarator →
        ∃ t : Token, p.node.elements = [.token t] ∧ t.isIdentifier = true := by
  refine ⟨fun x hx hi hd => ⟨fun hc ho => not_isClassified ho.2 hc, fun ho => ?_⟩,
    fun p hp hk => elements_of_name hp hk⟩
  obtain ⟨a, m, post, he, hk | ⟨hl, ⟨hk, rfl, hm⟩ | ⟨hk, ha⟩⟩⟩ := exists_allows hx hi hd
  · exact isClassified_of_takesNames hx hk
  · exact absurd ⟨hl, .inl ⟨hk, hm, post, he⟩⟩ ho
  · obtain ⟨n, hn, hnk⟩ := ha.exists_node m
    exact absurd ⟨hl, .inr ⟨hk, _, post, n, he, hn, hnk⟩⟩ ho

/-- `Async` is a name that modifies, and the line of the import begins with it. -/
theorem identifiers_classified_async_imports :
    let s := SourceText.ofText "Async Imports X".toList 0
    ∃ x ∈ (parse .visualBasic s).tokens, x.token.isIdentifier = true ∧ x.inDirective = false ∧
      x.token.span.start = 0 ∧ ¬ x.IsClassified ∧ x.IsOverlooked := by
  intro s
  have h : ((parse .visualBasic s).tokens.toList.any fun x =>
      x.token.isIdentifier && !x.inDirective && x.token.span.start == 0 &&
        x.parent.kind == .usingDirective) = true := by
    decide +kernel
  obtain ⟨x, hx, hb⟩ := List.any_eq_true.1 h
  simp only [Bool.and_eq_true, Bool.not_eq_true', beq_iff_eq] at hb
  obtain ⟨⟨⟨hi, hd⟩, h0⟩, hk⟩ := hb
  rw [Array.mem_toList_iff] at hx
  have hn : ¬ x.IsClassified := by
    rintro (⟨h | h, -⟩ | h | h | h) <;> cases hk.symm.trans h
  have ho := mt ((identifiers_classified .visualBasic s).1 x hx hi hd).2 hn
  exact ⟨x, hx, hi, hd, h0, hn, (Classical.not_not.1 ho).2⟩

end Tree

end Xref
