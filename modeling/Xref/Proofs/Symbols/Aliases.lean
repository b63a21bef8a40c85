import Xref.Proofs.Symbols.Named
import Xref.Proofs.Tree.Imports

/-!
# What aliases stand for

An alias is declared with a target, the names of its import joined by points. All names count that
refer and are children of the import, and those are not only the names behind the mark
(`Node.imported`). In C# the names among the attributes and modifiers of an import are children of
it as well (`Node.carried`), so `global using X = Foo;` makes `X` stand for `global.Foo`
(`Model.alias_target`).
-/

namespace Xref

/-! ## Joined texts -/

namespace Text

variable {c : Char} {p : Text} {ps qs : List Text}

theorem joinWith_cons (c : Char) (p : Text) (h : ps ≠ []) :
    joinWith c (p :: ps) = p ++ c :: joinWith c ps := by
  cases ps with
  | nil => exact absurd rfl h
  | cons q qs => rfl

theorem length_joinWith_le (c : Char) (ps qs : List Text) :
    (joinWith c qs).length ≤ (joinWith c (ps ++ qs)).length := by
  induction ps with
  | nil => exact Nat.le_refl _
  | cons p ps ih =>
      by_cases h : ps ++ qs = []
      · obtain ⟨-, rfl⟩ := List.append_eq_nil_iff.1 h
        exact Nat.zero_le _
      · rw [List.cons_append, joinWith_cons c p h, List.length_append, List.length_cons]
        omega

/-- Texts in front are seen, unless there is only one of them, an empty one, and nothing else. -/
theorem joinWith_append_eq_iff :
    joinWith c (ps ++ qs) = joinWith c qs ↔ ps = [] ∨ (ps = [[]] ∧ qs = []) := by
  constructor
  · intro h
    cases ps with
    | nil => exact .inl rfl
    | cons p ps =>
        by_cases hn : ps ++ qs = []
        · obtain ⟨rfl, rfl⟩ := List.append_eq_nil_iff.1 hn
          exact .inr ⟨congrArg (fun p => [p]) h, rfl⟩
        · have hl := length_joinWith_le c ps qs
          rw [List.cons_append, joinWith_cons c p hn] at h
          rw [← h, List.length_append, List.length_cons] at hl
          omega
  · rintro (rfl | ⟨rfl, rfl⟩) <;> rfl

end Text

/-! ## The names of an import -/

namespace Node

/-- The names before the alias that refer. -/
def carried (n : Node) : List Text :=
  Element.names (n.beforeAlias.filter Element.refers)

/-- The names behind the mark of the alias. -/
def imported (n : Node) : List Text :=
  Element.names n.behindAlias

end Node

namespace Draft

/-- A target is made of the children that refer, if each is a node around a name. -/
theorem map_value_refers {es : List Element}
    (h : ∀ y, .node y ∈ es → y.kind = .identifierName →
      ∃ t, y.children = .token t .nil ∧ t.kind = .identifier ∧ t.isMissing = false) :
    ((es.filterMap fun | .node m => some m | .token _ => none).filter
        fun m => m.kind == .identifierName).filterMap (fun m => m.firstToken?.map Token.value) =
      Element.names (es.filter Element.refers) := by
  induction es with
  | nil => rfl
  | cons e es ih =>
      have ih := ih fun y hy => h y (List.mem_cons_of_mem _ hy)
      cases e with
      | token t => exact ih
      | node y =>
          rw [List.filterMap_cons]
          by_cases hk : y.kind = .identifierName
          · obtain ⟨t, hc, ht, hm⟩ := h y List.mem_cons_self hk
            have hr : Element.refers (.node y) = true := beq_iff_eq.2 hk
            have hf : y.firstToken? = some t := by rw [Node.firstToken?, hc]; rfl
            rw [List.filter_cons_of_pos hr, Element.names_cons, Element.names_name hc ht hm, ← ih]
            simp [hk, hf]
          · have hr : ¬ Element.refers (.node y) = true := fun hr => hk (eq_of_beq hr)
            rw [List.filter_cons_of_neg hr, ← ih]
            simp [hk]

variable {l : Language} {s : SourceText} {p : PlacedNode} {e : Node}

/-- The names on both sides of an alias make up its target. -/
theorem aliasTarget_eq (hp : p ∈ (Tree.parse l s).nodes) (hk : p.kind = .usingDirective)
    (he : e ∈ p.node.childNodes) (hek : e.kind = .nameEquals) :
    aliasTarget p.node = Text.joinWith '.' (p.node.carried ++ p.node.imported) := by
  obtain ⟨helems, -, hnames⟩ := Tree.elements_import hp hk he hek
  have hr : ¬ Element.refers (.node e) = true := fun hr => by
    cases hek.symm.trans (eq_of_beq hr)
  have hsplit : Element.names (p.node.elements.filter Element.refers) =
      p.node.carried ++ p.node.imported := by
    rw [helems, List.filter_append, List.filter_cons_of_neg hr, Element.names_append,
      hnames.names_filter]
    rfl
  rw [aliasTarget, ← hsplit, ← map_value_refers fun y hy hyk => ?_]
  · rfl
  · exact Tree.children_of_name (Tree.child_mem_nodes hp (Node.mem_childNodes.2 hy)) (.inl hyk)

end Draft

namespace Model

/-- The target of an alias has the names behind its mark, and before these the names that refer
among what stands before the alias; so it is made of the names behind the mark alone exactly if
there are no others, as always in Visual Basic. (A single other name that is empty would not be
seen, as long as nothing is imported.) -/
theorem alias_target (l : Language) (s : SourceText) (b : Bool) :
    let t := Tree.parse l s
    let m := build t b
    ∀ p ∈ t.nodes, p.kind = .usingDirective → ∀ x, m.declared? p = some x →
      (∃ e name mark, p.node.elements = p.node.beforeAlias ++ .node e :: p.node.behindAlias ∧
        e.kind = .nameEquals ∧ e.elements = [.token name, .token mark] ∧
        name.isIdentifier = true ∧ mark.kind = .equals ∧ mark.isMissing = false ∧
        m.DeclaredAt p name x) ∧
      l.BeforeAlias p.node.beforeAlias ∧
      x.kind = .aliasOf (Text.joinWith '.' (p.node.carried ++ p.node.imported)) ∧
      (x.kind = .aliasOf (Text.joinWith '.' p.node.imported) ↔
        p.node.carried = [] ∨ (p.node.carried = [[]] ∧ p.node.imported = [])) ∧
      (l = .visualBasic → p.node.carried = []) := by
  intro t m p hp hk x hx
  obtain ⟨i, d, hd, rfl, ha⟩ := of_declared? hp (by rw [hk]; exact nofun) hx
  rw [Draft.other?, hk] at ha
  obtain ⟨rfl, e, he⟩ := Draft.of_alias? hk ha
  obtain ⟨mark, hc, hname, -, hmark, hmm⟩ := he.children hp
  obtain ⟨helems, hbefore, -⟩ := Tree.elements_import hp hk he.mem he.kind
  have htarget : d.kind =
      .aliasOf (Text.joinWith '.' (d.node.node.carried ++ d.node.node.imported)) := by
    rw [he.target, Draft.aliasTarget_eq hp hk he.mem he.kind]
  refine ⟨⟨e, d.name, mark, helems, he.kind, ?_, ?_, hmark, hmm, ?_⟩, hbefore, htarget, ?_, ?_⟩
  · rw [Node.elements, hc]
    rfl
  · rw [Token.isIdentifier, hname, he.present]
    rfl
  · exact ⟨mem_symbols_build.2 ⟨i, d, hd, rfl⟩, hx, rfl, rfl⟩
  · rw [show (Draft.number i d).symbol.kind = _ from htarget, SymbolKind.aliasOf.injEq]
    exact Text.joinWith_append_eq_iff
  · rintro rfl
    obtain ⟨t, ht⟩ := hbefore
    rw [Node.carried, ht]
    rfl

/-- The word `global` before `using` gets into the target. Without it, and with nothing but `int`
and a name that an attribute declares before `using`, the target is made of what is imported. -/
theorem alias_target_of_global :
    (let s := SourceText.ofText "global using X = Foo;".toList 0
      ∃ p ∈ (Tree.parse .csharp s).nodes, p.kind = .usingDirective ∧
        ∃ x, (build (.parse .csharp s) false).declared? p = some x ∧
          p.node.imported = ["Foo".toList] ∧ x.kind = .aliasOf "global.Foo".toList) ∧
    (let s := SourceText.ofText "[int a(int b)] using X = Foo.Bar<C>;".toList 0
      ∃ p ∈ (Tree.parse .csharp s).nodes, p.kind = .usingDirective ∧
        ∃ x, (build (.parse .csharp s) false).declared? p = some x ∧
          p.node.imported = ["Foo".toList, "Bar".toList, "C".toList] ∧
          x.kind = .aliasOf "Foo.Bar.C".toList) := by
  have target {s : SourceText} (carried : List Text) {imported : List Text}
      (h : (Tree.parse .csharp s).nodes.any (fun p => p.kind == .usingDirective &&
        p.node.carried == carried && p.node.imported == imported &&
          ((build (.parse .csharp s) false).declared? p).isSome) = true) :
      ∃ p ∈ (Tree.parse .csharp s).nodes, p.kind = .usingDirective ∧
        ∃ x, (build (.parse .csharp s) false).declared? p = some x ∧
          p.node.imported = imported ∧
          x.kind = .aliasOf (Text.joinWith '.' (carried ++ imported)) := by
    obtain ⟨p, hp, hb⟩ := Array.any_eq_true'.1 h
    simp only [Bool.and_eq_true, beq_iff_eq] at hb
    obtain ⟨⟨⟨hk, hc⟩, hi⟩, hx⟩ := hb
    obtain ⟨x, hx⟩ := Option.isSome_iff_exists.1 hx
    obtain ⟨-, -, htarget, -⟩ := alias_target .csharp s false p hp hk x hx
    exact ⟨p, hp, hk, x, hx, hi, hc ▸ hi ▸ htarget⟩
  exact ⟨target ["global".toList] (by decide +kernel), target [] (by decide +kernel)⟩

end Model

end Xref
