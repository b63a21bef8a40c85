import Xref.Proofs.Tree.Children
import Xref.Proofs.Tree.Heads
import Xref.Proofs.Tree.Parameters

/-!
# Imports in a tree

The children of an import with an alias are what stands before the alias, the node around the alias
and its mark, and what is imported (`Tree.elements_import`). Behind the alias no name stands but in
a node in which it refers. Before it names can stand in C# alone, each in a node that tells whether
it is declared or refers, and the lexemes on the two sides of the name decide which of the two.
-/

namespace Xref

namespace Element

/-- The child is a node around an alias. -/
def isAlias : Element → Bool
  | .token _ => false
  | .node n => n.kind == .nameEquals

/-- The child is a name that refers. -/
def refers : Element → Bool
  | .token _ => false
  | .node n => n.kind == .identifierName

/-- The names that the text has in some children. -/
def names (es : List Element) : List Text :=
  ((es.flatMap tokens).filter Token.isIdentifier).map Token.value

/-- Every name stands in a node in which it refers. -/
structure NamesRefer (es : List Element) : Prop where
  token : ∀ t, .token t ∈ es → t.kind ≠ .identifier
  node : ∀ y, .node y ∈ es → y.kind = .identifierName

theorem names_append (es fs : List Element) : names (es ++ fs) = names es ++ names fs := by
  rw [names, List.flatMap_append, List.filter_append, List.map_append]
  rfl

theorem names_cons (e : Element) (es : List Element) : names (e :: es) = names [e] ++ names es :=
  names_append [e] es

theorem names_token {t : Token} (h : t.kind ≠ .identifier) : names [.token t] = [] := by
  have hi : t.isIdentifier = false := by
    rw [Token.isIdentifier, beq_eq_false_iff_ne.2 h]
    rfl
  simp [names, tokens, hi]

theorem names_name {y : Node} {t : Token} (hc : y.children = .token t .nil)
    (hk : t.kind = .identifier) (hm : t.isMissing = false) : names [.node y] = [t.value] := by
  have hi : t.isIdentifier = true := by
    rw [Token.isIdentifier, hk, hm]
    rfl
  simp [names, tokens, Node.tokens, hc, Forest.tokens, hi]

theorem NamesRefer.names_filter {es : List Element} (h : NamesRefer es) :
    names (es.filter refers) = names es := by
  induction es with
  | nil => rfl
  | cons e es ih =>
      have ih := ih ⟨fun t ht => h.token t (List.mem_cons_of_mem _ ht),
        fun y hy => h.node y (List.mem_cons_of_mem _ hy)⟩
      rw [names_cons e es]
      cases e with
      | token t =>
          rw [List.filter_cons_of_neg (Bool.eq_false_iff.1 rfl), ih,
            names_token (h.token t List.mem_cons_self), List.nil_append]
      | node y =>
          have hr : refers (.node y) = true := beq_iff_eq.2 (h.node y List.mem_cons_self)
          rw [List.filter_cons_of_pos hr, names_cons, ih]

end Element

namespace Node

/-- The children before the alias. -/
def beforeAlias (n : Node) : List Element :=
  n.elements.takeWhile (!·.isAlias)

/-- The children behind the alias. -/
def behindAlias (n : Node) : List Element :=
  (n.elements.dropWhile (!·.isAlias)).tail

theorem elements_of_alias {n e : Node} {before after : List Element}
    (h : n.elements = before ++ .node e :: after) (he : e.kind = .nameEquals)
    (hb : ∀ y, .node y ∈ before → y.kind ≠ .nameEquals) :
    n.beforeAlias = before ∧ n.behindAlias = after := by
  have hall : ∀ x ∈ before, (!x.isAlias) = true := by
    intro x hx
    cases x with
    | token t => rfl
    | node y => exact congrArg (!·) (beq_eq_false_iff_ne.2 (hb y hx))
  have halias : (Element.node e).isAlias = true := beq_iff_eq.2 he
  constructor
  · rw [beforeAlias, h, List.takeWhile_append_of_pos hall, List.takeWhile_cons, halias]
    exact List.append_nil _
  · rw [behindAlias, h, List.dropWhile_append_of_pos hall, List.dropWhile_cons, halias]
    rfl

end Node

theorem Element.exists_head?_lexemes {es : List Element} {t : Token} (ht : .token t ∈ es)
    (hm : t.isMissing = false) : ∃ a, (lexemes es).head? = some a := by
  have hmem : t.lexeme ∈ lexemes es := by
    refine List.mem_map_of_mem (List.mem_filter.2 ⟨?_, by rw [hm]; rfl⟩)
    exact List.mem_flatMap.2 ⟨_, ht, List.mem_singleton_self t⟩
  exact ⟨_, List.head?_eq_some_head (List.ne_nil_of_mem hmem)⟩

/-- What stands before the alias of an import in C#: attributes and modifiers, `using`, and perhaps
`static`. Each name has a node of its own, and is declared exactly if the lexemes on its two sides
fit. -/
def CSharp.BeforeAlias (es : List Element) : Prop :=
  ∃ head word more, es = head ++ .token word :: more ∧ word.kind = .usingKeyword ∧
    (more = [] ∨
      ∃ t, more = [.token t] ∧ t.kind = .keyword ∧ String.ofList t.value = "static") ∧
    (∀ t, .token t ∈ head → t.kind ≠ .identifier) ∧
    ∀ u y w, head ++ [.token word] = u ++ .node y :: w → y.kind.isName = true ∧
      (y.kind = .declarator ↔ ∃ b a, (Element.lexemes u).getLast? = some b ∧
        (Element.lexemes w).head? = some a ∧ DeclaresBetween b a)

/-- What stands before the alias of an import in Visual Basic: one token. -/
def VisualBasic.BeforeAlias (es : List Element) : Prop :=
  ∃ t, es = [.token t]

/-- What stands before the alias of an import. -/
def Language.BeforeAlias : Language → List Element → Prop
  | .csharp => CSharp.BeforeAlias
  | .visualBasic => VisualBasic.BeforeAlias

/-! ## Outlines in their place -/

namespace Outline

variable {q : NodeKind → Bool} {fits : Lexeme → Lexeme → Prop} {o : Outline} {n : Tally}
  {ahead : List Lexeme} {u w : List Element} {y : Node}

theorem NamesIn.elements (h : o.NamesIn q) (hy : .node y ∈ (o.place n).elements) :
    q y.kind = true := by
  induction o generalizing n with
  | nil => cases hy
  | token l r ih =>
      rcases List.mem_cons.1 hy with hy | hy
      · cases hy
      · exact ih h.2 hy
  | missing k r ih =>
      rcases List.mem_cons.1 hy with hy | hy
      · cases hy
      · exact ih h.2 hy
  | node k c r _ ih =>
      rcases List.mem_cons.1 hy with hy | hy
      · obtain rfl := Element.node.inj hy
        exact h.1
      · exact ih h.2 hy

/-- A name is declared if a lexeme stands before it and the two next to it fit. -/
theorem NamesFrom.declares (h : o.NamesFrom fits ahead)
    (he : (o.place n).elements = u ++ .node y :: w) (hy : y.kind.isName = true) {a : Lexeme}
    (ha : (Element.lexemes w).head? = some a) :
    y.kind = .declarator ↔ ∃ b, (Element.lexemes u).getLast? = some b ∧ fits b a := by
  have behind {l : Lexeme} {r : Outline} {m : Tally} {u' : List Element}
      (hr : r.NamesBy fits ahead l) (hu : Element.lexemes u = l :: Element.lexemes u')
      (he : (r.place m).elements = u' ++ .node y :: w) :
      y.kind = .declarator ↔ ∃ b, (Element.lexemes u).getLast? = some b ∧ fits b a := by
    rw [hr.declares he hy ha, hu, List.getLast?_cons, List.getLastD_eq_getLast?]
    exact ⟨fun h => ⟨_, rfl, h⟩, fun ⟨_, hb, h⟩ => Option.some.inj hb ▸ h⟩
  cases h with
  | nil => cases u <;> cases he
  | token l r h =>
      cases u with
      | nil => cases he
      | cons e u =>
          obtain ⟨rfl, he'⟩ := List.cons.inj he
          exact behind h (Element.lexemes_token _ l u) he'
  | name l r h =>
      cases u with
      | nil =>
          obtain rfl := Element.node.inj (List.cons.inj he).1
          exact ⟨nofun, fun ⟨_, hb, _⟩ => nomatch hb⟩
      | cons e u =>
          obtain ⟨rfl, he'⟩ := List.cons.inj he
          exact behind h rfl he'

end Outline

namespace CSharp

theorem BeginsImport.place {o : Outline} (h : BeginsImport o) (n : Tally) :
    BeforeAlias (o.place n).elements := by
  obtain ⟨before, word, more, ahead, rfl, hh, hnames, hw, hmore⟩ := h
  have hsplit : ((before ++ .token word .nil).place n).elements =
      (before.place n).elements ++ [.token ((before.after n).token word false)] :=
    Outline.elements_append ..
  refine ⟨(before.place n).elements, (before.after n).token word false,
    (more.place ((before.after n).afterToken word)).elements, Outline.elements_append ..,
    hw, ?_, ?_, ?_⟩
  · rcases hmore with rfl | ⟨v, rfl, hk, hv⟩
    · exact .inl rfl
    · exact .inr ⟨_, rfl, hk, hv⟩
  · exact fun t ht => hh.names.lacks.elements ht
  · intro u y w he
    have hy : y.kind.isName = true := by
      have hm : .node y ∈ (before.place n).elements ++
          [.token ((before.after n).token word false)] := he ▸ by simp
      rcases List.mem_append.1 hm with hm | hm
      · exact hh.names.elements hm
      · cases List.mem_singleton.1 hm
    obtain ⟨a, ha⟩ : ∃ a, (Element.lexemes w).head? = some a := by
      rcases w.eq_nil_or_concat with rfl | ⟨w, b, rfl⟩
      · cases (List.append_inj' he rfl).2
      · rw [List.concat_eq_append] at he ⊢
        rw [← List.cons_append, ← List.append_assoc] at he
        obtain rfl := (List.cons.inj (List.append_inj' he rfl).2).1
        exact Element.exists_head?_lexemes (List.mem_append_right _ List.mem_cons_self) rfl
    refine ⟨hy, (hnames.declares (hsplit.trans he) hy ha).trans ?_⟩
    exact ⟨fun ⟨b, hb, h⟩ => ⟨b, a, hb, ha, h⟩,
      fun ⟨b, a', hb, ha', h⟩ => ⟨b, hb, Option.some.inj (ha.symm.trans ha') ▸ h⟩⟩

end CSharp

namespace Language

variable {l : Language} {o : Outline} {es : List Element}

/-- What an import begins with. -/
def BeginsImport : Language → Outline → Prop
  | .csharp => CSharp.BeginsImport
  | .visualBasic => VisualBasic.BeginsImport

theorem isImport {x : List Opened} {name : Option Text}
    (h : l.promise x ⟨.usingDirective, name⟩ o) : o.IsImport l.BeginsImport := by
  cases l <;> exact h

theorem BeginsImport.place (h : l.BeginsImport o) (n : Tally) :
    l.BeforeAlias (o.place n).elements := by
  cases l with
  | csharp => exact CSharp.BeginsImport.place h n
  | visualBasic =>
      obtain ⟨t, rfl⟩ := h
      exact ⟨_, rfl⟩

/-- No other alias stands before the alias. -/
theorem BeforeAlias.kind_ne (h : l.BeforeAlias es) {y : Node} (hy : .node y ∈ es) :
    y.kind ≠ .nameEquals := by
  cases l with
  | csharp =>
      obtain ⟨head, word, more, rfl, -, hm, -, hn⟩ := h
      rcases List.mem_append.1 hy with hy | hy
      · obtain ⟨u, w, rfl⟩ := List.append_of_mem hy
        obtain ⟨hk, -⟩ := hn u y (w ++ [.token word]) (List.append_assoc ..)
        intro he
        rw [he] at hk
        cases hk
      · rcases hm with rfl | ⟨t, rfl, -⟩ <;> simp at hy
  | visualBasic =>
      obtain ⟨t, rfl⟩ := h
      cases List.mem_singleton.1 hy

end Language

namespace Tree

variable {l : Language} {s : SourceText} {p : PlacedNode} {e : Node}

/-- What stands before and behind the alias of an import. -/
theorem elements_import (hp : p ∈ (parse l s).nodes) (hk : p.kind = .usingDirective)
    (he : e ∈ p.node.childNodes) (hek : e.kind = .nameEquals) :
    p.node.elements = p.node.beforeAlias ++ .node e :: p.node.behindAlias ∧
      l.BeforeAlias p.node.beforeAlias ∧ Element.NamesRefer p.node.behindAlias := by
  rcases stands_of_mem_nodes hp with h | h | ⟨name, x, ⟨-, c, n, hc, -, hh, -⟩, -⟩
  · cases hk.symm.trans h
  · cases hk.symm.trans h
  rw [hk] at hh
  obtain ⟨before, label, names, rfl, hb, ha, hn⟩ := Language.isImport (hh.kept rfl)
  have hbefore := hb.place n
  have helems : p.node.elements = (before.place n).elements ++
      ((label.place (before.after n)).elements ++
        (names.place (label.after (before.after n))).elements) := by
    rw [Node.elements, hc, Outline.elements_append, Outline.elements_append]
  have hmem : .node e ∈ p.node.elements := Node.mem_childNodes.1 he
  rw [helems] at hmem
  rcases List.mem_append.1 hmem with hmem | hmem
  · exact absurd hek (hbefore.kind_ne hmem)
  rcases List.mem_append.1 hmem with hmem | hmem
  · rcases ha with rfl | ⟨a, rfl⟩
    · cases hmem
    · obtain rfl := Element.node.inj (List.mem_singleton.1 hmem)
      obtain ⟨hb', hb''⟩ := Node.elements_of_alias helems hek fun y hy => hbefore.kind_ne hy
      rw [hb', hb'']
      exact ⟨helems, hbefore, fun t ht => hn.lacks.elements ht,
        fun y hy => eq_of_beq (hn.elements hy)⟩
  · cases hek.symm.trans (eq_of_beq (hn.elements hmem))

end Tree

end Xref
