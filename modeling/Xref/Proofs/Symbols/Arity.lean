import Xref.Proofs.Symbols.Named
import Xref.Proofs.Symbols.Resolved
import Xref.Proofs.Tree.Parameters

/-!
# Parameters and arguments

A constructor is recorded with the number of names that its list of parameters declares, and an
initializer looks for a constructor by the number of entries that commas separate in its list of
arguments. These are two ways to count. They agree on a list whose entries declare one name each
(`Model.arity_of_parameters`), and which names are declared can be read off the lexemes next to
them.

Not every parameter is a declared name. In C# `>`, `)` and `*` do not count as the end of a type, so
the name of a parameter behind them is not declared, and the commas inside `<` and `>` separate
entries of their own. In Visual Basic a parameter with neither `As` behind it nor a word such as
`ByVal` before it is not declared.
-/

namespace Xref

/-! ## The entries of a list -/

/-- A token of a list. -/
structure Listed where
  token : Token
  /-- The token is a name that the list declares. -/
  declared : Bool

/-- The tokens of a child of a list. -/
def Element.listed : Element → List Listed
  | .token t => [⟨t, false⟩]
  | .node n => n.tokens.map fun t => ⟨t, n.kind == .declarator⟩

namespace Listed

/-- The number of brackets that are open behind the token. -/
def depthAfter (x : Listed) (d : Nat) : Nat :=
  match x.token.kind with
  | .openParen | .openBrace | .openBracket => d + 1
  | .closeParen | .closeBrace | .closeBracket => d - 1
  | _ => d

/-- The token keeps an entry from being empty. What closes a bracket does not, and neither does the
bracket around the list. -/
def fills (x : Listed) (d : Nat) : Bool :=
  match x.token.kind with
  | .openParen | .openBrace | .openBracket => d > 0
  | .closeParen | .closeBrace | .closeBracket => false
  | _ => !x.token.isMissing

/-- What commas separate outside inner brackets, where `d` brackets are open. -/
def entriesFrom (d : Nat) : List Listed → List (List Listed)
  | [] => [[]]
  | x :: xs =>
    if x.token.kind = .comma ∧ d = 1 then [] :: entriesFrom d xs
    else (entriesFrom (x.depthAfter d) xs).modifyHead fun e => if x.fills d then x :: e else e

end Listed

/-- The entries of a list. An empty list has one entry, which is empty. -/
def Node.entries (list : Node) : List (List Listed) :=
  Listed.entriesFrom 0 (list.elements.flatMap Element.listed)

namespace Listed

variable {d : Nat} {xs : List Listed}

theorem exists_entriesFrom (d : Nat) (xs : List Listed) :
    ∃ e es, entriesFrom d xs = e :: es := by
  induction xs generalizing d with
  | nil => exact ⟨_, _, rfl⟩
  | cons x xs ih =>
      rw [entriesFrom]
      split
      · exact ⟨_, _, rfl⟩
      · obtain ⟨e, es, he⟩ := ih (x.depthAfter d)
        rw [he]
        exact ⟨_, _, rfl⟩

/-- Every declared name stands in an entry. -/
theorem countP_entriesFrom
    (h : ∀ x ∈ xs, x.declared = true → x.token.kind = .identifier ∧ x.token.isMissing = false) :
    (entriesFrom d xs).flatten.countP declared = xs.countP declared := by
  induction xs generalizing d with
  | nil => rfl
  | cons x xs ih =>
      obtain ⟨hx, hxs⟩ := List.forall_mem_cons.1 h
      rw [entriesFrom, List.countP_cons]
      split
      · next hc =>
          have hd : x.declared = false := Bool.eq_false_iff.2 fun hd => by
            cases (hx hd).1.symm.trans hc.1
          rw [List.flatten_cons, List.nil_append, ih hxs, hd]
          rfl
      · obtain ⟨e, es, he⟩ := exists_entriesFrom (x.depthAfter d) xs
        rw [← ih hxs (d := x.depthAfter d), he, List.modifyHead_cons]
        split
        · rw [List.flatten_cons, List.cons_append, List.countP_cons]
          rfl
        · next hf =>
            have hd : x.declared = false := Bool.eq_false_iff.2 fun hd => hf <| by
              rw [fills, (hx hd).1, (hx hd).2]
              rfl
            rw [hd]
            rfl

end Listed

namespace Model

open Listed

theorem next_of_separator {n : ArgumentCount} {t : Token} (hk : t.kind = .comma)
    (hd : n.depth = 1) : n.next t = ⟨n.depth, n.commas + 1, false⟩ := by
  rw [ArgumentCount.next, hk]
  exact if_pos hd

theorem next_of_not_separator {n : ArgumentCount} {x : Listed}
    (h : ¬ (x.token.kind = .comma ∧ n.depth = 1)) :
    n.next x.token = ⟨x.depthAfter n.depth, n.commas, n.pending || x.fills n.depth⟩ := by
  unfold ArgumentCount.next depthAfter fills
  generalize x.token.kind = k at h
  cases k with
  | comma => exact if_neg fun hd => h ⟨rfl, hd⟩
  | closeParen | closeBrace | closeBracket => rw [Bool.or_false]
  | _ => rfl

/-- Arguments are counted by the entries they make up. -/
theorem foldl_next (n : ArgumentCount) (xs : List Listed) :
    let r := (xs.map Listed.token).foldl ArgumentCount.next n
    r.commas + 1 = n.commas + (entriesFrom n.depth xs).length ∧
      ∀ e, entriesFrom n.depth xs = [e] → (r.pending = true ↔ n.pending = true ∨ e ≠ []) := by
  induction xs generalizing n with
  | nil =>
      refine ⟨rfl, fun e he => ?_⟩
      obtain rfl := (List.cons.inj he).1
      simp
  | cons x xs ih =>
      rw [List.map_cons, List.foldl_cons, entriesFrom]
      split
      · next hc =>
          obtain ⟨hl, -⟩ := ih (n.next x.token)
          rw [next_of_separator hc.1 hc.2] at hl ⊢
          dsimp only at hl
          refine ⟨by rw [hl, List.length_cons]; omega, fun e he => ?_⟩
          obtain ⟨e', es, hes⟩ := exists_entriesFrom n.depth xs
          rw [hes] at he
          cases he
      · next hc =>
          obtain ⟨hl, hp⟩ := ih (n.next x.token)
          rw [next_of_not_separator hc] at hl hp ⊢
          obtain ⟨e', es, hes⟩ := exists_entriesFrom (x.depthAfter n.depth) xs
          dsimp only at hl hp ⊢
          rw [hes] at hl hp ⊢
          refine ⟨hl, fun e he => ?_⟩
          obtain ⟨rfl, rfl⟩ := List.cons.inj he
          rw [hp e' rfl, Bool.or_eq_true, or_assoc]
          refine or_congr_right ?_
          split
          · next hf => exact iff_of_true (.inl hf) (List.cons_ne_nil _ _)
          · next hf => exact ⟨fun h => h.resolve_left hf, .inr⟩

end Model

namespace Node

variable {list : Node}

theorem map_token_listed (es : List Element) :
    (es.flatMap Element.listed).map Listed.token = es.flatMap Element.tokens := by
  induction es with
  | nil => rfl
  | cons e es ih =>
      rw [List.flatMap_cons, List.flatMap_cons, List.map_append, ih]
      cases e with
      | token t => rfl
      | node n =>
          rw [Element.listed, List.map_map]
          exact congrArg (· ++ _) (List.map_id n.tokens)

/-- An empty list has no arguments; any other has as many as entries. -/
theorem argumentCount_eq (list : Node) :
    (list.entries = [[]] → Model.argumentCount list = 0) ∧
      (list.entries ≠ [[]] → Model.argumentCount list = list.entries.length) := by
  have hts : list.tokens = (list.elements.flatMap Element.listed).map Listed.token := by
    rw [map_token_listed, elements, Forest.flatMap_elements]
    rfl
  obtain ⟨hl, hp⟩ := Model.foldl_next {} (list.elements.flatMap Element.listed)
  unfold Model.argumentCount entries
  rw [hts]
  dsimp only at hl hp ⊢
  generalize (List.foldl Model.ArgumentCount.next {}
    ((list.elements.flatMap Element.listed).map Listed.token)) = r at hl hp ⊢
  obtain ⟨e, es, hes⟩ := Listed.exists_entriesFrom 0 (list.elements.flatMap Element.listed)
  rw [hes] at hl hp ⊢
  rw [List.length_cons] at hl
  constructor
  · intro h
    obtain ⟨rfl, rfl⟩ := List.cons.inj h
    have hr : r.pending = false := Bool.eq_false_iff.2 fun h => by
      simpa using (hp [] rfl).1 h
    rw [hr, List.length_nil] at *
    simp only [Bool.or_false, decide_eq_true_eq]
    rw [if_neg (by omega)]
  · intro h
    rw [if_pos ?_, List.length_cons]
    · omega
    · rw [Bool.or_eq_true, decide_eq_true_eq]
      cases es with
      | nil => exact .inr ((hp e rfl).2 (.inr fun he => h (by rw [he])))
      | cons e' es =>
          rw [List.length_cons] at hl
          exact .inl (by omega)

/-- The names that a list declares, if each stands in a node of its own. -/
theorem countP_listed {es : List Element}
    (h : ∀ y, .node y ∈ es → y.kind = .declarator → ∃ t, y.tokens = [t]) :
    (es.flatMap Element.listed).countP Listed.declared =
      (es.filterMap fun | .node m => some m | .token _ => none).countP
        fun m => m.kind == .declarator := by
  induction es with
  | nil => rfl
  | cons e es ih =>
      have hes := ih fun y hy => h y (List.mem_cons_of_mem _ hy)
      rw [List.flatMap_cons, List.countP_append, hes]
      cases e with
      | token t => exact Nat.zero_add _
      | node n =>
          rw [List.filterMap_cons, List.countP_cons, Nat.add_comm]
          refine congrArg _ ?_
          rw [Element.listed, List.countP_map]
          by_cases hk : n.kind = .declarator
          · obtain ⟨t, ht⟩ := h n List.mem_cons_self hk
            rw [ht, if_pos (beq_iff_eq.2 hk)]
            simp [hk]
          · rw [if_neg (fun hb => hk (eq_of_beq hb))]
            simp [hk]

end Node

/-- Every entry of a list declares one name, as far as there is any. -/
def Node.DeclaresEach (list : Node) : Prop :=
  list.entries = [[]] ∨ ∀ e ∈ list.entries, e.countP Listed.declared = 1

theorem Node.DeclaresEach.countP {list : Node} (h : list.DeclaresEach) :
    list.entries.flatten.countP Listed.declared = Model.argumentCount list := by
  obtain ⟨he, hn⟩ := list.argumentCount_eq
  rcases h with h | h
  · rw [he h, h]
    rfl
  · rw [hn fun hc => absurd (h [] (hc ▸ List.mem_cons_self)) nofun]
    generalize list.entries = es at h
    induction es with
    | nil => rfl
    | cons e es ih =>
        obtain ⟨he, hes⟩ := List.forall_mem_cons.1 h
        rw [List.flatten_cons, List.countP_append, he, ih hes, List.length_cons, Nat.add_comm]

/-! ## The arity of a constructor -/

namespace Tree

variable {l : Language} {s : SourceText} {p : PlacedNode}

/-- A list declares as many names as its entries do. -/
theorem countP_declarators (hp : p ∈ (parse l s).nodes) :
    (p.node.childNodes.countP fun m => m.kind == .declarator) =
      p.node.entries.flatten.countP Listed.declared := by
  have hname {y : Node} (hy : .node y ∈ p.node.elements) (hyk : y.kind = .declarator) :
      ∃ t, y.tokens = [t] ∧ t.kind = .identifier ∧ t.isMissing = false := by
    obtain ⟨t, hc, ht⟩ :=
      children_of_name (child_mem_nodes hp (Node.mem_childNodes.2 hy)) (.inr hyk)
    have hc : y.children = .token t .nil := hc
    exact ⟨t, by rw [Node.tokens, hc]; rfl, ht⟩
  rw [Node.entries, Listed.countP_entriesFrom, Node.countP_listed fun y hy hyk => ?_]
  · rfl
  · obtain ⟨t, ht, -⟩ := hname hy hyk
    exact ⟨t, ht⟩
  · intro x hx hd
    obtain ⟨e, he, hxe⟩ := List.mem_flatMap.1 hx
    cases e with
    | token t =>
        obtain rfl := List.mem_singleton.1 hxe
        cases hd
    | node y =>
        obtain ⟨v, hv, rfl⟩ := List.mem_map.1 hxe
        obtain ⟨t, ht, htk⟩ := hname he (eq_of_beq hd)
        rw [ht] at hv
        obtain rfl := List.mem_singleton.1 hv
        exact htk

end Tree

namespace Model

variable {l : Language} {s : SourceText} {b : Bool} {p : PlacedNode} {x : Symbol}

/-- A constructor is recorded with its arity. -/
theorem declared?_constructor (hp : p ∈ (Tree.parse l s).nodes)
    (hk : p.kind = .constructorDeclaration) (hx : (build (.parse l s) b).declared? p = some x) :
    x.kind = .constructor (Draft.arity p.node) := by
  obtain ⟨i, d, -, rfl, hd⟩ := of_declared? hp (by rw [hk]; exact nofun) hx
  rw [Draft.other?, hk] at hd
  obtain ⟨t, -, rfl⟩ := Option.map_eq_some_iff.1 hd
  rfl

theorem exists_declared (hp : p ∈ (Tree.parse l s).nodes) (hk : p.kind = .constructorDeclaration)
    (h : l = .csharp ∨ ∃ t ∈ p.node.childTokens, t.kind = .newKeyword) (b : Bool) :
    ∃ x, (build (.parse l s) b).declared? p = some x := by
  have ht : ∃ t, Draft.childToken? p.node (Draft.constructorToken l) = some t := by
    cases l with
    | csharp =>
        obtain ⟨_, _, _, _, hc, hb, -⟩ := Tree.beginsConstructor_csharp hp hk
        obtain ⟨t, ht, -⟩ := hb.place hc
        exact ⟨t, ht⟩
    | visualBasic =>
        obtain ⟨t, ht, htk⟩ := h.resolve_left nofun
        exact Option.isSome_iff_exists.1 (List.find?_isSome.2 ⟨t, ht, beq_iff_eq.2 htk⟩)
  obtain ⟨t, ht⟩ := ht
  obtain ⟨_, _, hm⟩ := Draft.mem_all_of_constructor hp hk ht
  obtain ⟨x, hx, -⟩ := exists_declaredAt hm b
  exact ⟨x, hx.declared⟩

/-- A list of parameters has as many arguments as entries, while its constructor is recorded with
the number of names that the entries declare, which are the names whose neighbours fit. Where every
entry declares one name the numbers agree, and initializers with as many arguments find the
constructor, and with it none of another arity. -/
theorem arity_of_parameters (l : Language) (s : SourceText) (b : Bool) :
    let t := Tree.parse l s
    let m := build t b
    ∀ p ∈ t.nodes, p.kind = .constructorDeclaration →
      ∀ list, Draft.childOfKind? p.node .parameterList = some list →
        (list.entries = [[]] → argumentCount list = 0) ∧
        (list.entries ≠ [[]] → argumentCount list = list.entries.length) ∧
        (∀ u y w, list.elements = u ++ .node y :: w → y.kind.isName = true →
          ∃ before, (Element.lexemes u).getLast? = some before ∧
            ∀ after, (Element.lexemes w).head? = some after →
              (y.kind = .declarator ↔ l.DeclaresBetween before after)) ∧
        ((l = .csharp ∨ ∃ t ∈ p.node.childTokens, t.kind = .newKeyword) →
          ∃ x, m.declared? p = some x) ∧
        ∀ x, m.declared? p = some x →
          x.kind = .constructor (list.entries.flatten.countP Listed.declared) ∧
          (list.DeclaresEach →
            x.kind = .constructor (argumentCount list) ∧
            ∀ r type, m.targetType? r = some type → x ∈ m.constructorsOf m.declarations type →
              initializerArguments r.node = argumentCount list →
              x ∈ (m.resolveInitializer r).all ∧
                ∀ y ∈ (m.resolveInitializer r).all, y.kind = x.kind) := by
  intro t m p hp hk list hl
  have hlist : p.child list ∈ t.nodes := Tree.child_mem_nodes hp (List.mem_of_find?_eq_some hl)
  have hlk : (p.child list).kind = .parameterList :=
    eq_of_beq (List.find?_some (p := fun m : Node => m.kind == .parameterList) hl)
  refine ⟨list.argumentCount_eq.1, list.argumentCount_eq.2,
    fun u y w he hy => Tree.declares_parameter hlist hlk he hy,
    fun h => exists_declared hp hk h b, fun x hx => ?_⟩
  have hxk : x.kind = .constructor (list.entries.flatten.countP Listed.declared) := by
    rw [declared?_constructor hp hk hx, Draft.arity, hl]
    exact congrArg _ (Tree.countP_declarators hlist)
  refine ⟨hxk, fun he => ?_⟩
  rw [he.countP] at hxk
  refine ⟨hxk, fun r type ht hc hr => ?_⟩
  rw [resolveInitializer, ht, hxk]
  exact hr ▸ resolveAmong_of_arity hc (hr ▸ hxk)

/-- The name behind `List<int>` is not declared, so a list with one entry makes no arity of one. Two
names behind built-in types are, and an initializer with two arguments finds them. -/
theorem arity_of_generic_parameter :
    (let s := SourceText.ofText "class C { C(List<int> x) { } }".toList 0
      ∃ p ∈ (Tree.parse .csharp s).nodes, p.kind = .constructorDeclaration ∧
        ∃ list, Draft.childOfKind? p.node .parameterList = some list ∧ argumentCount list = 1 ∧
          ∃ x, (build (.parse .csharp s) false).declared? p = some x ∧ x.kind = .constructor 0) ∧
    (let s := SourceText.ofText "class C { C(int a, int b) { } C() : this(1, 2) { } }".toList 0
      let m := build (.parse .csharp s) false
      ∃ p ∈ (Tree.parse .csharp s).nodes, p.kind = .constructorDeclaration ∧
        ∃ r ∈ (Tree.parse .csharp s).nodes, ∃ x, m.declared? p = some x ∧
          x.kind = .constructor 2 ∧ initializerArguments r.node = 2 ∧
            x ∈ (m.resolveInitializer r).all) := by
  constructor
  · intro s
    have h : (Tree.parse .csharp s).nodes.any (fun p => p.kind == .constructorDeclaration &&
        (Draft.childOfKind? p.node .parameterList).any fun list =>
          argumentCount list == 1 && list.entries.flatten.countP Listed.declared == 0) = true := by
      decide +kernel
    obtain ⟨p, hp, hb⟩ := Array.any_eq_true'.1 h
    obtain ⟨hk, hb⟩ := Bool.and_eq_true_iff.1 hb
    obtain ⟨list, hl, hb⟩ := (Option.any_eq_true _ _).1 hb
    obtain ⟨ha, hn⟩ := Bool.and_eq_true_iff.1 hb
    obtain ⟨-, -, -, hx, hkind⟩ :=
      arity_of_parameters .csharp s false p hp (eq_of_beq hk) list hl
    obtain ⟨x, hx⟩ := hx (.inl rfl)
    obtain ⟨hxk, -⟩ := hkind x hx
    rw [eq_of_beq hn] at hxk
    exact ⟨p, hp, eq_of_beq hk, list, hl, eq_of_beq ha, x, hx, hxk⟩
  · intro s m
    have h : (Tree.parse .csharp s).nodes.any (fun p => p.kind == .constructorDeclaration &&
        (Draft.childOfKind? p.node .parameterList).any fun list =>
          (list.entries.all fun e => e.countP Listed.declared == 1) && argumentCount list == 2 &&
            (m.declared? p).any fun x => (Tree.parse .csharp s).nodes.any fun r =>
              initializerArguments r.node == 2 && (m.targetType? r).any fun type =>
                (m.constructorsOf m.declarations type).contains x) = true := by
      decide +kernel
    obtain ⟨p, hp, hb⟩ := Array.any_eq_true'.1 h
    obtain ⟨hk, hb⟩ := Bool.and_eq_true_iff.1 hb
    obtain ⟨list, hl, hb⟩ := (Option.any_eq_true _ _).1 hb
    obtain ⟨hb, hx⟩ := Bool.and_eq_true_iff.1 hb
    obtain ⟨he, ha⟩ := Bool.and_eq_true_iff.1 hb
    obtain ⟨x, hx, hb⟩ := (Option.any_eq_true _ _).1 hx
    obtain ⟨r, hr, hb⟩ := Array.any_eq_true'.1 hb
    obtain ⟨hn, hb⟩ := Bool.and_eq_true_iff.1 hb
    obtain ⟨type, ht, hc⟩ := (Option.any_eq_true _ _).1 hb
    have ha := eq_of_beq ha
    have hn := eq_of_beq hn
    obtain ⟨-, -, -, -, hkind⟩ :=
      arity_of_parameters .csharp s false p hp (eq_of_beq hk) list hl
    obtain ⟨hxk, hfound⟩ := (hkind x hx).2 <|
      .inr fun e hm => eq_of_beq (List.all_eq_true.1 he e hm)
    obtain ⟨hmem, -⟩ := hfound r type ht (List.contains_iff_mem.1 hc) (hn.trans ha.symm)
    exact ⟨p, hp, eq_of_beq hk, r, hr, x, hx, ha ▸ hxk, hn, hmem⟩

end Model

end Xref
