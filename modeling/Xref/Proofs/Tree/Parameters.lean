import Xref.Proofs.Tree.Formed
import Xref.Proofs.Tree.Lossless

/-!
# The names in a list of parameters

A parser promises that the names in a list of parameters are declared where their neighbours fit
(`Outline.IsList`). Laid out, this says of the children of the list: a name has a lexeme of the list
before it, and where the list has one behind it too, these two alone tell whether the name is
declared (`Tree.declares_parameter`).
-/

namespace Xref

/-- A name between the two lexemes is declared in a list of parameters. -/
def Language.DeclaresBetween : Language → Lexeme → Lexeme → Prop
  | .csharp => CSharp.DeclaresBetween
  | .visualBasic => VisualBasic.DeclaresBetween

theorem Language.isList {l : Language} {x : List Opened} {name : Option Text} {o : Outline}
    (h : l.promise x ⟨.parameterList, name⟩ o) : o.IsList l.DeclaresBetween := by
  cases l <;> exact h

namespace Element

/-- The tokens of a child. -/
def tokens : Element → List Token
  | .token t => [t]
  | .node n => n.tokens

/-- What the text has of some children. -/
def lexemes (es : List Element) : List Lexeme :=
  ((es.flatMap tokens).filter fun t => !t.isMissing).map Token.lexeme

theorem lexemes_token (n : Tally) (l : Lexeme) (es : List Element) :
    lexemes (.token (n.token l false) :: es) = l :: lexemes es := rfl

theorem lexemes_missing (n : Tally) (l : Lexeme) (es : List Element) :
    lexemes (.token (n.token l true) :: es) = lexemes es := rfl

theorem lexemes_cons (e : Element) (es : List Element) :
    lexemes (e :: es) = (e.tokens.filter fun t => !t.isMissing).map Token.lexeme ++ lexemes es := by
  rw [lexemes, List.flatMap_cons, List.filter_append, List.map_append]
  rfl

end Element

theorem Forest.flatMap_elements (f : Forest) : f.elements.flatMap Element.tokens = f.tokens := by
  induction f with
  | nil => rfl
  | token t rest ih => rw [elements, List.flatMap_cons, ih]; rfl
  | node head children rest _ ih => rw [elements, List.flatMap_cons, ih]; rfl

namespace Outline

variable {fits : Lexeme → Lexeme → Prop} {o : Outline} {n : Tally} {u w : List Element} {y : Node}

theorem lexemes_elements (o : Outline) (n : Tally) :
    Element.lexemes (o.place n).elements = o.lexemes := by
  rw [Element.lexemes, Forest.flatMap_elements, lexemes_place]

/-- A name among the children is declared where its neighbours fit. -/
theorem NamesBy.declares {ahead : List Lexeme} {b : Lexeme} (h : o.NamesBy fits ahead b)
    (he : (o.place n).elements = u ++ .node y :: w) (hy : y.kind.isName = true) {a : Lexeme}
    (ha : (Element.lexemes w).head? = some a) :
    y.kind = .declarator ↔ fits ((Element.lexemes u).getLastD b) a := by
  induction o generalizing n u b with
  | nil => cases u <;> cases he
  | token l r ih =>
      cases u with
      | nil => cases he
      | cons e u =>
          obtain ⟨rfl, he'⟩ := List.cons.inj he
          rw [Element.lexemes_token, List.getLastD_cons]
          exact ih h he'
  | missing k r ih =>
      cases u with
      | nil => cases he
      | cons e u =>
          obtain ⟨rfl, he'⟩ := List.cons.inj he
          rw [Element.lexemes_missing]
          exact ih h he'
  | node k c r _ ih =>
      cases u with
      | nil =>
          obtain ⟨hn, rfl⟩ := List.cons.inj he
          obtain rfl := Element.node.inj hn
          have hw : r.lexemes.head? = some a := by
            rw [← ha]
            exact congrArg _ (r.lexemes_elements _).symm
          exact h.1 hy a (by rw [List.head?_append, hw]; rfl)
      | cons e u =>
          obtain ⟨hn, he'⟩ := List.cons.inj he
          have hl : (e.tokens.filter fun t => !t.isMissing).map Token.lexeme = c.lexemes := by
            rw [← hn]
            exact c.lexemes_place _
          rw [Element.lexemes_cons, hl, getLastD_append]
          exact ih h.2 he'

/-- A name in a list has a lexeme of the list before it. -/
theorem IsList.declares (h : o.IsList fits) (he : (o.place n).elements = u ++ .node y :: w)
    (hy : y.kind.isName = true) :
    ∃ b, (Element.lexemes u).getLast? = some b ∧
      ∀ a, (Element.lexemes w).head? = some a → (y.kind = .declarator ↔ fits b a) := by
  cases h with
  | ofParen l o ahead hl ho =>
      cases u with
      | nil => cases he
      | cons e u =>
          obtain ⟨rfl, he'⟩ := List.cons.inj he
          refine ⟨(Element.lexemes u).getLastD l, ?_, fun a => ho.declares he' hy⟩
          rw [Element.lexemes_token, List.getLast?_cons, List.getLastD_eq_getLast?]
  | missing =>
      have hm : Element.node y ∈ u ++ .node y :: w := List.mem_append_right _ List.mem_cons_self
      rw [← he] at hm
      rcases List.mem_cons.1 hm with hm | hm
      · cases hm
      · cases List.mem_singleton.1 hm

end Outline

namespace Tree

variable {l : Language} {s : SourceText} {p : PlacedNode} {u w : List Element} {y : Node}

/-- Whether a name in a list of parameters is declared depends on the lexemes on its two sides. -/
theorem declares_parameter (hp : p ∈ (parse l s).nodes) (hk : p.kind = .parameterList)
    (he : p.node.elements = u ++ .node y :: w) (hy : y.kind.isName = true) :
    ∃ before, (Element.lexemes u).getLast? = some before ∧
      ∀ after, (Element.lexemes w).head? = some after →
        (y.kind = .declarator ↔ l.DeclaresBetween before after) := by
  rcases stands_of_mem_nodes hp with h | h | ⟨name, x, ⟨-, c, n, hc, -, hh, -⟩, -⟩
  · cases hk.symm.trans h
  · cases hk.symm.trans h
  · rw [Node.elements, hc] at he
    rw [hk] at hh
    exact (Language.isList (hh.kept rfl)).declares he hy

end Tree

end Xref
