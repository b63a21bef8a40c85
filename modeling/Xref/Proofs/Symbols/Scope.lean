import Xref.Proofs.Symbols.Declared
import Xref.Proofs.Symbols.Resolved
import Xref.Proofs.Tree.Lossless

/-!
# The innermost declaration wins

A name is looked up among the symbols whose scope lies around it, and the one with the shortest
scope is taken. Shortest is innermost, since scopes never cross (`Model.innermost_wins`): a scope is
the full span of the root or of a node around the declaring node (`Draft.scope_cases`), whatever
kind of declaration it is, and of two nodes one lies in the other or one lies behind the other.

Nothing here depends on where a parser gave up on a construct. What is needed of the tree is that
children tile their parents, and that holds of every tree.
-/

namespace Xref

/-! ## Scopes -/

namespace Draft

variable {t : Tree} {l : Language} {s : SourceText} {d : Draft} {p : PlacedNode} {span : Span}

/-- The full span of one of the nodes around a node, or that of the document. -/
def IsScope (document : Span) (p : PlacedNode) (scope : Span) : Prop :=
  scope = document ∨ ∃ a ∈ p.ancestors, scope = a.fullSpan

theorem isScope_getD {o : Option Node} (h : ∀ a, o = some a → a ∈ p.ancestors) :
    IsScope span p ((o.map Node.fullSpan).getD span) := by
  cases o with
  | none => exact .inl rfl
  | some a => exact .inr ⟨a, h a rfl, rfl⟩

theorem isScope_findAncestor? (f : NodeKind → Bool) :
    IsScope span p (((p.findAncestor? f).map Node.fullSpan).getD span) :=
  isScope_getD fun _ h => List.mem_of_find?_eq_some h

theorem isScope_ownerType? :
    IsScope span p (((ownerType? p).map (·.node.fullSpan)).getD span) := by
  cases h : ownerType? p with
  | none => exact .inl rfl
  | some q =>
      refine .inr ⟨q.node, ?_, rfl⟩
      have hq := (Option.filter_eq_some_iff.1 h).1
      unfold PlacedNode.parent? at hq
      split at hq
      · cases hq
      · next a as has =>
          obtain rfl := Option.some.inj hq
          rw [has]
          exact List.mem_cons_self

theorem isScope_nameKind (parent : Node) (b : Bool) :
    IsScope span p (nameKind span p parent b).2 := by
  have hp : IsScope span p ((p.ancestors.tail.head?.map Node.fullSpan).getD span) :=
    isScope_getD fun a h => List.mem_of_mem_tail (List.mem_of_head? h)
  unfold nameKind
  dsimp only
  split
  · exact hp
  all_goals exact isScope_findAncestor? _

/-- What is declared is visible in the document or in a node around the declaring node. -/
theorem scope_cases (h : d ∈ all t) : IsScope t.root.fullSpan d.node d.scope := by
  rcases List.mem_append.1 h with h | h
  · obtain ⟨p, -, h⟩ := List.mem_filterMap.1 h
    unfold type? at h
    split at h
    · obtain ⟨x, -, rfl⟩ := Option.map_eq_some_iff.1 h
      exact .inl rfl
    · cases h
  · obtain ⟨p, -, h⟩ := List.mem_filterMap.1 h
    unfold other? at h
    split at h
    · unfold alias? at h
      split at h
      · cases h
      split at h
      · cases h
      split at h
      · cases h
      obtain rfl := Option.some.inj h
      exact isScope_findAncestor? _
    · obtain ⟨x, -, rfl⟩ := Option.map_eq_some_iff.1 h
      exact isScope_ownerType?
    · unfold name? at h
      split at h
      · obtain rfl := Option.some.inj h
        exact isScope_nameKind _ _
      · cases h
    · cases h

/-- A scope is the full span of a node that lies around the declaring one. -/
theorem exists_scope (h : d ∈ all (.parse l s)) :
    ∃ q ∈ (Tree.parse l s).nodes, d.scope = q.node.fullSpan ∧
      d.scope.encloses d.node.node.fullSpan = true := by
  have hd := (of_mem_all h).1
  rcases scope_cases h with hs | ⟨a, ha, hs⟩
  · refine ⟨_, Tree.placedRoot_mem_nodes _, hs, ?_⟩
    have hw := (Tree.arranged_parse l s).within _
      (List.mem_map_of_mem (Array.mem_toList_iff.2 hd))
    obtain ⟨hstart, hstop⟩ := Tree.fullSpan_root l s
    rw [hs, Span.encloses_iff, hstart, hstop]
    exact hw
  · obtain ⟨⟨q, hq, rfl⟩, he⟩ := Tree.encloses_ancestor hd ha
    exact ⟨q, hq, hs, by rw [hs]; exact he⟩

/-- The declaring name lies in the scope. -/
theorem scope_encloses_name (h : d ∈ all (.parse l s)) : d.scope.encloses d.name.span = true := by
  obtain ⟨q, -, -, he⟩ := exists_scope h
  obtain ⟨x, hx, hn, -, -, hp⟩ := exists_token h
  have hxp := Tree.parent_mem_nodes hx
  have hin : x.parent.node.fullSpan.encloses x.token.fullSpan = true :=
    Tree.encloses_element hxp (Node.mem_childTokens.1 (Node.mem_placedTokens_iff.1
      (Tree.mem_tokens_iff.1 hx)).2.1)
  have hd : d.node.node.fullSpan.encloses x.parent.node.fullSpan = true := by
    rcases hp with ⟨-, hp⟩ | ⟨-, hp⟩
    · rw [hp, Span.encloses_iff]
      exact ⟨Nat.le_refl _, Nat.le_refl _⟩
    · obtain ⟨hq, hc⟩ := Tree.of_parent? hxp hp
      exact Tree.encloses_element hq (Node.mem_childNodes.1 hc)
  have ht : x.token.fullSpan.encloses x.token.span = true := by
    rw [Span.encloses_iff, x.token.stop_fullSpan]
    exact ⟨Nat.le_add_right _ _, Nat.le_add_right _ _⟩
  rw [← hn]
  exact Span.encloses_trans he (Span.encloses_trans hd (Span.encloses_trans hin ht))

end Draft

/-! ## The shortest scope -/

namespace Model

variable {m : Model} {l : Language} {s : SourceText} {b : Bool} {x y : Symbol} {ss : List Symbol}
  {name : Text} {span : Span}

theorem innermost?_eq_none : innermost? ss = none ↔ ss = [] := by
  cases ss with
  | nil => exact iff_of_true rfl rfl
  | cons s ss =>
      refine iff_of_false (fun h => ?_) (List.cons_ne_nil s ss)
      rw [innermost?] at h
      split at h
      · cases h
      · split at h <;> cases h

/-- No scope is shorter than that of the innermost symbol, and those as short as it belong to later
symbols. -/
theorem le_of_innermost? (ho : ss.Pairwise fun x y => x.id < y.id) (h : innermost? ss = some x)
    (hy : y ∈ ss) : x.scope.size ≤ y.scope.size ∧ (y.scope.size = x.scope.size → x.id ≤ y.id) := by
  induction ss generalizing x with
  | nil => cases h
  | cons s ss ih =>
      obtain ⟨hs, ho⟩ := List.pairwise_cons.1 ho
      rw [innermost?] at h
      split at h
      · next hn =>
          obtain rfl := Option.some.inj h
          rw [innermost?_eq_none.1 hn] at hy
          obtain rfl := List.mem_singleton.1 hy
          exact ⟨Nat.le_refl _, fun _ => Nat.le_refl _⟩
      · next z hz =>
          split at h
          · next hle =>
              obtain rfl := Option.some.inj h
              rcases List.mem_cons.1 hy with rfl | hy
              · exact ⟨Nat.le_refl _, fun _ => Nat.le_refl _⟩
              · exact ⟨Nat.le_trans hle (ih ho hz hy).1, fun _ => Nat.le_of_lt (hs y hy)⟩
          · next hlt =>
              obtain rfl := Option.some.inj h
              rcases List.mem_cons.1 hy with rfl | hy
              · exact ⟨by omega, fun he => absurd (Nat.le_of_eq he) hlt⟩
              · exact ih ho hz hy

/-! ## Symbols of a text -/

theorem getElem?_symbols_build {t : Tree} {i : Nat} (h : (build t b).symbols[i]? = some x) :
    x.id = i := by
  rw [symbols, build, Declaration.all, List.getElem?_map, List.getElem?_mapIdx] at h
  obtain ⟨D, hD, rfl⟩ := Option.map_eq_some_iff.1 h
  obtain ⟨d, -, rfl⟩ := Option.map_eq_some_iff.1 hD
  rfl

/-- Symbols are numbered in order of declaration. -/
theorem pairwise_symbols_build (t : Tree) (b : Bool) :
    (build t b).symbols.Pairwise fun x y => x.id < y.id := by
  rw [List.pairwise_iff_getElem]
  intro i j hi hj hij
  rw [getElem?_symbols_build (List.getElem?_eq_getElem hi),
    getElem?_symbols_build (List.getElem?_eq_getElem hj)]
  exact hij

theorem scope_encloses_declaration (hx : x ∈ (build (.parse l s) b).symbols) :
    x.scope.encloses x.declaration = true := by
  obtain ⟨i, d, hd, rfl⟩ := mem_symbols_build.1 hx
  exact Draft.scope_encloses_name (List.mem_of_getElem? hd)

/-- Of two scopes one lies in the other or one lies behind the other. -/
theorem scopes_nested (hx : x ∈ (build (.parse l s) b).symbols)
    (hy : y ∈ (build (.parse l s) b).symbols) :
    x.scope.encloses y.scope = true ∨ y.scope.encloses x.scope = true ∨
      x.scope.stop ≤ y.scope.start ∨ y.scope.stop ≤ x.scope.start := by
  obtain ⟨i, d, hd, rfl⟩ := mem_symbols_build.1 hx
  obtain ⟨j, e, he, rfl⟩ := mem_symbols_build.1 hy
  obtain ⟨p, hp, hdp, -⟩ := Draft.exists_scope (List.mem_of_getElem? hd)
  obtain ⟨q, hq, heq, -⟩ := Draft.exists_scope (List.mem_of_getElem? he)
  show d.scope.encloses e.scope = true ∨ e.scope.encloses d.scope = true ∨
    d.scope.stop ≤ e.scope.start ∨ e.scope.stop ≤ d.scope.start
  rw [hdp, heq]
  exact (Tree.fullSpans_tile l s).2.2 p hp q hq

/-! ## Looking up -/

/-- The symbol has the name, is no constructor, and can be seen at the span. -/
structure Visible (m : Model) (name : Text) (span : Span) (x : Symbol) : Prop where
  mem : x ∈ m.symbols
  key_eq : m.key x.name = m.key name
  isConstructor : x.kind.isConstructor = false
  encloses : x.scope.encloses span = true

theorem mem_candidates :
    x ∈ (m.named name).filter (fun x => !x.kind.isConstructor && x.scope.encloses span) ↔
      m.Visible name span x := by
  rw [List.mem_filter, mem_named, Bool.and_eq_true, Bool.not_eq_true']
  exact ⟨fun ⟨⟨hm, hk⟩, hc, he⟩ => ⟨hm, hk, hc, he⟩,
    fun h => ⟨⟨h.mem, h.key_eq⟩, h.isConstructor, h.encloses⟩⟩

theorem lookup?_eq_none : m.lookup? name span = none ↔ ∀ x, ¬ m.Visible name span x := by
  rw [lookup?, innermost?_eq_none, List.eq_nil_iff_forall_not_mem]
  exact forall_congr' fun _ => not_congr mem_candidates

/-- The symbol found can be seen, and of all that can be seen its scope is innermost. -/
theorem scope_of_lookup? (ha : span.isEmpty = false)
    (h : (build (.parse l s) b).lookup? name span = some x) :
    (build (.parse l s) b).Visible name span x ∧
      ∀ y, (build (.parse l s) b).Visible name span y →
        y.scope.encloses x.scope = true ∧ (y.scope = x.scope → x.id ≤ y.id) := by
  have hx := mem_candidates.1 (mem_of_innermost? h)
  refine ⟨hx, fun y hy => ?_⟩
  have ho : ((build (.parse l s) b).named name).Pairwise fun x y => x.id < y.id :=
    (pairwise_symbols_build _ b).filter _
  obtain ⟨hle, hid⟩ := le_of_innermost? (ho.filter _) h (mem_candidates.2 hy)
  refine ⟨?_, fun he => hid (congrArg Span.size he)⟩
  -- both scopes lie around the span, which is not empty, so neither lies behind the other
  obtain ⟨hxs, hxe⟩ := Span.encloses_iff.1 hx.encloses
  obtain ⟨hys, hye⟩ := Span.encloses_iff.1 hy.encloses
  have hne : span.start ≠ span.stop := fun he => by
    rw [Span.isEmpty_iff.2 he] at ha
    cases ha
  have hspan := span.start_le_stop
  rcases scopes_nested hx.mem hy.mem with h | h | h | h
  · obtain ⟨hs, he⟩ := Span.encloses_iff.1 h
    unfold Span.size at hle
    exact Span.encloses_iff.2 ⟨by omega, by omega⟩
  · exact h
  · omega
  · omega

/-- A symbol is visible at its declaration, scopes never cross, and the innermost symbol that can be
seen is found, the earliest of them if several share the scope. -/
theorem innermost_wins (l : Language) (s : SourceText) (b : Bool) :
    let m := build (.parse l s) b
    (∀ x ∈ m.symbols, x.scope.encloses x.declaration = true) ∧
    (∀ x ∈ m.symbols, ∀ y ∈ m.symbols,
      x.scope.encloses y.scope = true ∨ y.scope.encloses x.scope = true ∨
        x.scope.stop ≤ y.scope.start ∨ y.scope.stop ≤ x.scope.start) ∧
    (∀ (i : Nat) (x : Symbol), m.symbols[i]? = some x → x.id = i) ∧
    ∀ name span, span.isEmpty = false →
      (m.lookup? name span = none ↔ ∀ x, ¬ m.Visible name span x) ∧
      ∀ x, m.lookup? name span = some x → m.Visible name span x ∧
        ∀ y, m.Visible name span y →
          y.scope.encloses x.scope = true ∧ (y.scope = x.scope → x.id ≤ y.id) := by
  intro m
  refine ⟨fun x hx => scope_encloses_declaration hx, fun x hx y hy => scopes_nested hx hy,
    fun i x h => getElem?_symbols_build h, fun name span ha => ⟨lookup?_eq_none, fun x h => ?_⟩⟩
  exact scope_of_lookup? ha h

end Model

end Xref
