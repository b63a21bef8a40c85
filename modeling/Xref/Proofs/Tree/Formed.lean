import Xref.Proofs.Lexeme.Nameless
import Xref.Proofs.Tree.Parse

/-!
# What the nodes of a tree hold

The parsers promise a little about the nodes they make: a node around a name holds it and nothing
else, a node around an alias holds the alias and the mark behind it, an initializer stands in a
constructor and begins with the words that tell what it calls, and types and constructors begin
with what names them. The promise was made for outlines (`Outline.Formed`). Here it is kept by the
table of nodes, since every node in it that is no directive is laid out from a node of the outline,
and so are the nodes around it (`Outline.stands_of_mem_placedNodes`).
-/

namespace Xref

theorem Token.kind_of_mem_placedDirectives {t : Token} {p : PlacedNode}
    (hp : p ∈ t.placedDirectives) : p.kind = .directive :=
  (Token.mem_placedDirectives hp).2.1

theorem Forest.kind_of_owner {f : Forest} {as : List Node} {p : PlacedNode}
    (hp : p ∈ f.placedNodes as) (ho : p.owner ≠ none) : p.kind = .directive := by
  induction f generalizing as with
  | nil => cases hp
  | token t rest ih =>
      rcases List.mem_append.1 hp with hp | hp
      · exact Token.kind_of_mem_placedDirectives hp
      · exact ih hp
  | node head children rest ihc ihr =>
      rcases List.mem_cons.1 hp with rfl | hp
      · exact absurd rfl ho
      · rcases List.mem_append.1 hp with hp | hp
        · exact ihc hp
        · exact ihr hp

theorem Forest.node_mem_nodes {f : Forest} {as : List Node} {p : PlacedNode}
    (hp : p ∈ f.placedNodes as) : p.kind = .directive ∨ p.node ∈ f.nodes := by
  induction f generalizing as with
  | nil => cases hp
  | token t rest ih =>
      rcases List.mem_append.1 hp with hp | hp
      · exact .inl (Token.kind_of_mem_placedDirectives hp)
      · exact ih hp
  | node head children rest ihc ihr =>
      rw [Forest.nodes]
      rcases List.mem_cons.1 hp with rfl | hp
      · exact .inr (List.mem_append_left _ List.mem_cons_self)
      · rcases List.mem_append.1 hp with hp | hp
        · refine (ihc hp).imp_right fun h => ?_
          exact List.mem_append_left _ (List.mem_cons_of_mem _ h)
        · exact (ihr hp).imp_right fun h => List.mem_append_right _ h

namespace Outline

variable {P : Promise} {ls : List Lexeme} {x : List Opened} {o : Outline} {n : Tally}
  {as : List Node} {p : PlacedNode}

/-- The nodes around a place are laid out from nodes that may have their children there, and so
hold lexemes that stand next to each other. -/
def Stands (P : Promise) (ls : List Lexeme) : List Opened → List Node → Prop
  | [], _ => True
  | _ :: _, [] => False
  | n :: x, a :: as =>
    (a.kind = n.kind ∧ ∃ (c : Outline) (m : Tally), a.children = c.place m ∧ c.lexemes <:+: ls ∧
      Holds P x n c ∧ c.Formed P (n :: x)) ∧ Stands P ls x as

/-- A node of the table is a directive or laid out from a node of the outline. -/
theorem stands_of_mem_placedNodes (hf : o.Formed P x) (hl : o.lexemes <:+: ls)
    (hs : Stands P ls x as) (hp : p ∈ (o.place n).placedNodes as) :
    p.kind = .directive ∨ ∃ name x, Stands P ls (⟨p.kind, name⟩ :: x) (p.node :: p.ancestors) := by
  induction o generalizing n as x with
  | nil => cases hp
  | token l r ih =>
      rcases List.mem_append.1 hp with hp | hp
      · exact .inl (Token.kind_of_mem_placedDirectives hp)
      · exact ih hf ((List.suffix_cons l r.lexemes).isInfix.trans hl) hs hp
  | missing k r ih =>
      rcases List.mem_append.1 hp with hp | hp
      · exact .inl (Token.kind_of_mem_placedDirectives hp)
      · exact ih hf.2 hl hs hp
  | node k c r ihc ihr =>
      obtain ⟨⟨name, hh, hc⟩, hr⟩ := hf
      have hcl := (List.prefix_append c.lexemes r.lexemes).isInfix.trans hl
      have hrl := (List.suffix_append c.lexemes r.lexemes).isInfix.trans hl
      have hs' : Stands P ls (⟨k, name⟩ :: x)
          (⟨⟨n.nodes, k, n.offset⟩, c.place (afterOpen n)⟩ :: as) :=
        ⟨⟨rfl, c, _, rfl, hcl, hh, hc⟩, hs⟩
      rcases List.mem_cons.1 hp with rfl | hp
      · exact .inr ⟨name, x, hs'⟩
      · rcases List.mem_append.1 hp with hp | hp
        · exact ihc hc hcl hs' hp
        · exact ihr hr hrl hs hp

theorem exists_constructor (hf : o.Formed P x) (hp : p ∈ (o.place n).placedNodes as)
    (hk : p.kind = .constructorInitializer) :
    Opened.inConstructor x = true ∨ ∃ c ∈ (o.place n).placedNodes as,
      c.kind = .constructorDeclaration ∧ p ∈ c.node.children.placedNodes c.around := by
  have hd {t : Token} (h : p ∈ t.placedDirectives) : False := by
    rw [Token.kind_of_mem_placedDirectives h] at hk
    cases hk
  induction o generalizing n as x with
  | nil => cases hp
  | token l r ih =>
      rcases List.mem_append.1 hp with hp | hp
      · exact (hd hp).elim
      · exact (ih hf hp).imp_right fun ⟨c, hc, h⟩ => ⟨c, List.mem_append_right _ hc, h⟩
  | missing k r ih =>
      rcases List.mem_append.1 hp with hp | hp
      · exact (hd hp).elim
      · exact (ih hf.2 hp).imp_right fun ⟨c, hc, h⟩ => ⟨c, List.mem_append_right _ hc, h⟩
  | node k c r ihc ihr =>
      obtain ⟨⟨name, hh, hc⟩, hr⟩ := hf
      rcases List.mem_cons.1 hp with rfl | hp'
      · exact .inl (hh.inside hk)
      · rcases List.mem_append.1 hp' with hp' | hp'
        · rcases ihc hc hp' with h | ⟨d, hd, h⟩
          · rcases Bool.or_eq_true_iff.1 h with h | h
            · exact .inr ⟨_, List.mem_cons_self, eq_of_beq h, hp'⟩
            · exact .inl h
          · exact .inr ⟨d, List.mem_cons_of_mem _ (List.mem_append_left _ hd), h⟩
        · refine (ihr hr hp').imp_right fun ⟨d, hd, h⟩ => ⟨d, ?_, h⟩
          exact List.mem_cons_of_mem _ (List.mem_append_right _ hd)

end Outline

namespace Tree

variable {l : Language} {s : SourceText} {p : PlacedNode} {x : PlacedToken}

theorem stands_of_mem_nodes (hp : p ∈ (parse l s).nodes) :
    p.kind = .compilationUnit ∨ p.kind = .directive ∨
      ∃ name x, Outline.Stands l.promise (LexemeSeq.ofText l s.chars).all (⟨p.kind, name⟩ :: x)
        (p.node :: p.ancestors) := by
  obtain ⟨o, hr, hl, hf⟩ := exists_outline l s
  rw [mem_nodes_iff, hr] at hp
  rcases List.mem_cons.1 hp with rfl | hp
  · exact .inl rfl
  · rw [← hl]
    exact .inr (Outline.stands_of_mem_placedNodes hf (List.infix_refl _) trivial hp)

theorem exists_of_mem_nodes (hp : p ∈ (parse l s).nodes) :
    p.kind = .compilationUnit ∨ p.kind = .directive ∨
      ∃ (c : Outline) (m : Tally), p.node.children = c.place m ∧ p.kind.Admits c ∧
        c.lexemes <:+: (LexemeSeq.ofText l s.chars).all := by
  rcases stands_of_mem_nodes hp with h | h | ⟨_, _, ⟨-, c, m, hc, hl, hh, -⟩, -⟩
  · exact .inl h
  · exact .inr (.inl h)
  · exact .inr (.inr ⟨c, m, hc, hh.admits, hl⟩)

theorem children_of_name (hp : p ∈ (parse l s).nodes)
    (hk : p.kind = .identifierName ∨ p.kind = .declarator) :
    ∃ t, p.node.children = .token t .nil ∧ t.kind = .identifier ∧ t.isMissing = false := by
  rcases exists_of_mem_nodes hp with h | h | ⟨c, m, hc, ha, -⟩
  · rcases hk with hk | hk <;> rw [hk] at h <;> cases h
  · rcases hk with hk | hk <;> rw [hk] at h <;> cases h
  · have ha : ∃ x, c = .token x .nil ∧ x.kind = .identifier := by
      rcases hk with hk | hk <;> rw [hk] at ha <;> exact ha
    obtain ⟨x, rfl, hx⟩ := ha
    exact ⟨_, hc, hx, rfl⟩

/-- A node around an alias holds the alias and a mark. An alias that the text has stands for a name,
since a mark is next to it. -/
theorem children_of_nameEquals (hp : p ∈ (parse l s).nodes) (hk : p.kind = .nameEquals) :
    ∃ t e, p.node.children = .token t (.token e .nil) ∧ t.kind = .identifier ∧
      (t.isMissing = false → t.value ≠ [] ∧ e.kind = .equals ∧ e.isMissing = false) := by
  rcases exists_of_mem_nodes hp with h | h | ⟨c, m, hc, ha, hl⟩
  · rw [hk] at h
    cases h
  · rw [hk] at h
    cases h
  · rw [hk] at ha
    rcases ha with ⟨a, e, rfl, hka, hke⟩ | ⟨e, rfl⟩
    · refine ⟨_, _, hc, hka, fun _ => ⟨fun hv => ?_, hke, rfl⟩⟩
      exact LexemeSeq.mayPrecede_of_infix_scan hl hka hv hke
    · exact ⟨_, _, hc, rfl, fun h => by cases h⟩

theorem owner_eq_none (hp : p ∈ (parse l s).nodes) (hk : p.kind ≠ .directive) :
    p.owner = none := by
  rw [mem_nodes_iff] at hp
  rcases List.mem_cons.1 hp with rfl | hp
  · rfl
  · by_cases ho : p.owner = none
    · exact ho
    · exact absurd (Forest.kind_of_owner hp ho) hk

theorem exists_constructor (hp : p ∈ (parse l s).nodes) (hk : p.kind = .constructorInitializer) :
    ∃ c ∈ (parse l s).nodes, c.kind = .constructorDeclaration ∧ p ∈ c.descendants := by
  have ho := owner_eq_none hp (by rw [hk]; exact nofun)
  obtain ⟨o, hr, -, hf⟩ := exists_outline l s
  rw [mem_nodes_iff, hr] at hp
  rcases List.mem_cons.1 hp with rfl | hp
  · cases hk
  · rcases Outline.exists_constructor hf hp hk with h | ⟨c, hc, hck, hpc⟩
    · cases h
    · refine ⟨c, ?_, hck, ?_⟩
      · rw [mem_nodes_iff, hr]
        exact List.mem_cons_of_mem _ hc
      · rw [PlacedNode.descendants_eq_filter]
        refine List.mem_cons_of_mem _ (List.mem_filter.2 ⟨hpc, ?_⟩)
        rw [ho]
        rfl

theorem mem_descendants (hp : p ∈ (parse l s).nodes) (hk : p.kind ≠ .directive) :
    p ∈ (parse l s).placedRoot.descendants := by
  have ho := owner_eq_none hp hk
  rw [mem_nodes_iff] at hp
  refine (Node.descendants_eq _).symm ▸ List.mem_filter.2 ⟨hp, ?_⟩
  rw [ho]
  rfl

theorem node_mem_descendants (hp : p ∈ (parse l s).nodes) (hk : p.kind ≠ .directive) :
    p.node ∈ (parse l s).root.descendants := by
  rw [mem_nodes_iff] at hp
  rcases List.mem_cons.1 hp with rfl | hp
  · exact List.mem_cons_self
  · rcases Forest.node_mem_nodes hp with h | h
    · exact absurd h hk
    · exact List.mem_cons_of_mem _ h

/-- The token around which a node for a name stands. -/
theorem children_parent (hx : x ∈ (parse l s).tokens) (hk : x.parent.kind = .identifierName) :
    x.parent.node.children = .token x.token .nil ∧ x.token.kind = .identifier ∧
      x.token.isMissing = false := by
  obtain ⟨t, hc, ht, hm⟩ := children_of_name (parent_mem_nodes hx) (.inl hk)
  obtain ⟨-, hxt, -⟩ := Node.mem_placedTokens_iff.1 (mem_tokens_iff.1 hx)
  rw [Node.mem_childTokens, hc] at hxt
  obtain rfl : x.token = t := Element.token.inj (List.mem_singleton.1 hxt)
  exact ⟨hc, ht, hm⟩

/-- A token that the text has takes up room, unless it is the end of something. -/
theorem text_ne_nil (hx : x ∈ (parse l s).tokens) (hm : x.token.isMissing = false)
    (hf : x.token.kind ≠ .endOfFile) (hd : x.token.kind ≠ .endOfDirective) :
    x.token.text ≠ [] := by
  rcases stands_of_mem hx with ⟨hm', -⟩ | ⟨-, pre, -, hs⟩
  · rw [hm] at hm'
    cases hm'
  · intro h
    exact (hs.empty h).2.elim hf hd

theorem eq_of_start_eq {y : PlacedToken} (hx : x ∈ (parse l s).tokens)
    (hy : y ∈ (parse l s).tokens) (hnx : x.token.text ≠ []) (hny : y.token.text ≠ [])
    (h : x.token.span.start = y.token.span.start) : x = y := by
  have hsx : x.token.span.stop = x.token.span.start + x.token.text.size := rfl
  have hsy : y.token.span.stop = y.token.span.start + y.token.text.size := rfl
  have := Text.size_pos hnx
  have := Text.size_pos hny
  rcases (inOrder_parse l s).cases hx hy with he | ⟨-, hs⟩ | ⟨-, hs⟩
  · exact he
  · omega
  · omega

theorem mem_childTokens_parent (hx : x ∈ (parse l s).tokens) : x ∈ x.parent.childTokens := by
  obtain ⟨-, ht, hi⟩ := Node.mem_placedTokens_iff.1 (mem_tokens_iff.1 hx)
  refine List.mem_map.2 ⟨x.token, ht, ?_⟩
  obtain ⟨t, p, b⟩ := x
  exact congrArg _ hi.symm

/-! ## Initializers -/

/-- A `New` in an initializer stands behind the word that tells what is called. -/
theorem firstToken?_of_new (hx : x ∈ (parse l s).tokens)
    (hk : x.parent.kind = .constructorInitializer) (hn : x.token.kind = .newKeyword) :
    ∃ t, x.parent.node.firstToken? = some t ∧
      (t.kind = .meKeyword ∨ t.kind = .myClassKeyword ∨ t.kind = .myBaseKeyword) := by
  obtain ⟨-, hxt, -⟩ := Node.mem_placedTokens_iff.1 (mem_tokens_iff.1 hx)
  rcases exists_of_mem_nodes (parent_mem_nodes hx) with h | h | ⟨c, m, hc, ha, -⟩
  · rw [hk] at h
    cases h
  · rw [hk] at h
    cases h
  · rw [Node.mem_childTokens, hc] at hxt
    rw [Node.firstToken?, hc]
    rw [hk] at ha
    cases ha with
    | ofColon c w a hkc hkw =>
        simp only [Outline.place_token, Outline.place_node, Forest.elements, List.mem_cons,
          Element.token.injEq] at hxt
        rcases hxt with h | h | h | h
        · rw [h] at hn
          cases hkc.symm.trans hn
        · rw [h] at hn
          rcases hkw with hkw | hkw <;> cases hkw.symm.trans hn
        · cases h
        · cases h
    | ofColonOnly c a hkc =>
        simp only [Outline.place_token, Outline.place_missing, Outline.place_node, Forest.elements,
          List.mem_cons, Element.token.injEq] at hxt
        rcases hxt with h | h | h | h
        · rw [h] at hn
          cases hkc.symm.trans hn
        · rw [h] at hn
          cases hn
        · cases h
        · cases h
    | ofDot q d n a hq => exact ⟨_, rfl, hq⟩

end Tree

/-- The words that initializers are searched for. -/
def Language.isCallWord : Language → TokenKind → Bool
  | .csharp, k => k == .thisKeyword || k == .baseKeyword
  | .visualBasic, k => k == .newKeyword

namespace Tree

variable {l : Language} {s : SourceText} {x : PlacedToken}

/-- A token is the word of an initializer if it stands in one, the text has it, and its kind is
right; in Visual Basic what stands before it is then always right as well. -/
theorem isInitializerWord_iff (hx : x ∈ (parse l s).tokens) :
    l.isInitializerWord x = true ↔ x.parent.kind = .constructorInitializer ∧
      x.token.isMissing = false ∧ l.isCallWord x.token.kind = true := by
  have hi : Language.inInitializer x = true ↔
      x.parent.kind = .constructorInitializer ∧ x.token.isMissing = false := by
    simp only [Language.inInitializer, Bool.and_eq_true, Bool.not_eq_true', beq_iff_eq, and_comm]
  rw [← and_assoc, ← hi]
  cases l with
  | csharp =>
      simp only [Language.isInitializerWord, Language.callsThis, Language.callsBase,
        Language.isCallWord, Bool.or_eq_true, Bool.and_eq_true, and_comm, and_or_left]
  | visualBasic =>
      simp only [Language.isInitializerWord, Language.callsThis, Language.callsBase,
        Language.isCallWord, Language.qualifier?, Bool.or_eq_true, beq_iff_eq]
      by_cases hw : x.token.kind = .newKeyword ∧ Language.inInitializer x = true
      · obtain ⟨t, ht, hk⟩ := firstToken?_of_new hx (hi.1 hw.2).1 hw.1
        rw [if_pos (by rw [hw.1, hw.2]; rfl), ht]
        simp only [Option.map_some, Option.some.injEq, or_assoc]
        exact iff_of_true hk hw.symm
      · rw [if_neg (by simpa only [Bool.and_eq_true, beq_iff_eq] using hw)]
        refine iff_of_false ?_ fun h => hw h.symm
        rintro ((h | h) | h) <;> cases h

theorem mem_initializerWords :
    x ∈ l.initializerWords (parse l s).placedRoot ↔
      x ∈ (parse l s).tokens ∧ l.isInitializerWord x = true := by
  constructor
  · intro h
    obtain ⟨-, -, -, -, -, -, -, hi⟩ := Language.mem_initializerWords.1 h
    exact ⟨mem_tokens_iff.2 (Node.mem_placedTokens_of_mem_initializerWords h), hi⟩
  · rintro ⟨hx, hi⟩
    have hk := ((isInitializerWord_iff hx).1 hi).1
    obtain ⟨c, hc, hck, hp⟩ := exists_constructor (parent_mem_nodes hx) hk
    refine Language.mem_initializerWords.2 ⟨c, mem_descendants hc (by rw [hck]; exact nofun), hck,
      x.parent, hp, hk, mem_childTokens_parent hx, hi⟩

end Tree

end Xref
