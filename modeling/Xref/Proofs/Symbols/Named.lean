import Xref.Proofs.Symbols.Declared
import Xref.Proofs.Tree.Heads

/-!
# Names that are read twice

A type or a constructor is named twice. The parser reads the name where the grammar has it: behind
the attributes, the modifiers and the word for a type, or behind `Sub`. The model looks for it once
more, and takes the first child of the right kind. Both find one token as long as nothing of that
kind stands before it (`Model.declared_at_names`).

In C# only the word `record` does, which is a name for the lexer: a record is declared at that word
and called like it, while its constructors are called like the name behind it. In Visual Basic a
`New` among the attributes stands before the one that follows `Sub`.
-/

namespace Xref

/-! ## Where the model declares -/

/-- The node declares the symbol, with the name and at the place of the token. -/
structure Model.DeclaredAt (m : Model) (p : PlacedNode) (t : Token) (x : Symbol) : Prop where
  mem : x ∈ m.symbols
  declared : m.declared? p = some x
  name : x.name = t.value
  declaration : x.declaration = t.span

namespace Draft

variable {t : Tree} {p : PlacedNode} {x : Token} {l : Language} {s : SourceText} {d : Draft}

theorem mem_all_of_type (hp : p ∈ t.nodes) (hk : p.kind = .classDeclaration)
    (hx : p.node.childTokens.find? Token.isIdentifier = some x) :
    ⟨p, x, .type, t.root.fullSpan⟩ ∈ all t := by
  refine List.mem_append_left _ (List.mem_filterMap.2 ⟨p, Array.mem_toList_iff.2 hp, ?_⟩)
  rw [type?, if_pos hk, hx]
  rfl

theorem mem_all_of_constructor (hp : p ∈ t.nodes) (hk : p.kind = .constructorDeclaration)
    (hx : childToken? p.node (constructorToken t.language) = some x) :
    ∃ n scope, ⟨p, x, .constructor n, scope⟩ ∈ all t := by
  have hd : other? t t.root.fullSpan p = some ⟨p, x, .constructor (arity p.node),
      ((ownerType? p).map (·.node.fullSpan)).getD t.root.fullSpan⟩ := by
    simp only [other?, hk, constructor?, hx, Option.map_some]
  exact ⟨_, _, List.mem_append_right _
    (List.mem_filterMap.2 ⟨p, Array.mem_toList_iff.2 hp, hd⟩)⟩

/-- The text has the name of a constructor. -/
theorem present_of_constructor (hp : p ∈ (Tree.parse l s).nodes)
    (hk : p.kind = .constructorDeclaration)
    (hx : childToken? p.node (constructorToken l) = some x) :
    x.isMissing = false ∧
      (x.kind = .identifier ∨ (l = .visualBasic ∧ x.kind = .newKeyword)) := by
  have hxk : x.kind = constructorToken l := by
    have h := List.find?_some hx
    exact eq_of_beq h
  cases l with
  | csharp =>
      obtain ⟨_, c, n, -, hc, hb, -⟩ := Tree.beginsConstructor_csharp hp hk
      obtain ⟨y, hy, hm, -⟩ := hb.place hc
      obtain rfl : y = x := Option.some.inj (hy.symm.trans hx)
      exact ⟨hm, .inl hxk⟩
  | visualBasic =>
      exact ⟨Tree.isMissing_of_new hp hk (List.mem_of_find?_eq_some hx) hxk, .inr ⟨rfl, hxk⟩⟩

/-- The text has what declares something: a name, or the `New` of a constructor. -/
theorem present (h : d ∈ all (.parse l s)) :
    d.name.isMissing = false ∧ (d.name.kind = .identifier ∨
      (l = .visualBasic ∧ d.name.kind = .newKeyword ∧ d.kind.isConstructor = true)) := by
  rcases List.mem_append.1 h with h | h
  · obtain ⟨p, hp, hd⟩ := List.mem_filterMap.1 h
    unfold type? at hd
    split at hd
    · obtain ⟨x, hx, rfl⟩ := Option.map_eq_some_iff.1 hd
      have hi := List.find?_some hx
      simp only [Token.isIdentifier, Bool.and_eq_true, beq_iff_eq, Bool.not_eq_true'] at hi
      exact ⟨hi.2, .inl hi.1⟩
    · cases hd
  · obtain ⟨p, hp, hd⟩ := List.mem_filterMap.1 h
    have hp := Array.mem_toList_iff.1 hp
    unfold other? at hd
    split at hd
    · next hk =>
        obtain ⟨rfl, e, ha⟩ := of_alias? hk hd
        exact ⟨ha.present, .inl (ha.token hp).2.2.1⟩
    · next hk =>
        obtain ⟨x, hx, rfl⟩ := Option.map_eq_some_iff.1 hd
        obtain ⟨hm, hi | ⟨hl, hn⟩⟩ := present_of_constructor hp hk hx
        · exact ⟨hm, .inl hi⟩
        · exact ⟨hm, .inr ⟨hl, hn, rfl⟩⟩
    · next hk =>
        unfold name? at hd
        split at hd
        · next x n hx hn =>
            obtain rfl := Option.some.inj hd
            obtain ⟨y, hc, hy, hm⟩ := Tree.children_of_name hp (.inr hk)
            rw [Node.firstToken?, hc] at hx
            obtain rfl : y = x := Option.some.inj hx
            exact ⟨hm, .inl hy⟩
        · cases hd
    · cases hd

end Draft

theorem Model.exists_declaredAt {l : Language} {s : SourceText} {d : Draft}
    (h : d ∈ Draft.all (.parse l s)) (b : Bool) :
    ∃ x, (build (.parse l s) b).DeclaredAt d.node d.name x ∧ x.kind = d.kind := by
  obtain ⟨i, hi⟩ := List.getElem?_of_mem h
  exact ⟨_, ⟨mem_symbols_build.2 ⟨i, d, hi, rfl⟩, declared?_node hi, rfl, rfl⟩, rfl⟩

/-! ## Both readings compared -/

/-- Of two child tokens that stand one after the other the first has a place of its own. -/
theorem Tree.span_ne {l : Language} {s : SourceText} {p : PlacedNode}
    (hp : p ∈ (parse l s).nodes) {t u : Token}
    (ht : t ∈ p.node.childTokens) (hm : t.isMissing = false) (hf : t.kind ≠ .endOfFile)
    (hd : t.kind ≠ .endOfDirective) (h : t.span.stop ≤ u.span.start) : t.span ≠ u.span := by
  intro he
  have hs : t.span.stop = t.span.start + t.text.size := rfl
  have hn : t.text ≠ [] := text_ne_nil (childToken_mem_tokens hp ht) hm hf hd
  have := Text.size_pos hn
  rw [← he] at h
  omega

namespace Model

variable {s : SourceText} {p : PlacedNode}

/-- A type is declared at its name, unless the word before it is a name itself. -/
theorem type_declaredAt (hp : p ∈ (Tree.parse .csharp s).nodes) (hk : p.kind = .classDeclaration)
    (b : Bool) {word name : Token} (h : NamesType p.node word name) :
    let m := build (.parse .csharp s) b
    (word.kind = .typeKeyword → name.isMissing = false →
      ∃ x, m.DeclaredAt p name x ∧ x.kind = .type) ∧
    (word.kind ≠ .typeKeyword →
      ∃ x, m.DeclaredAt p word x ∧ x.kind = .type ∧ x.declaration ≠ name.span) := by
  intro m
  obtain ⟨_, c, n, hc, hb⟩ := Tree.beginsType hp hk
  obtain ⟨w, y, hwy, -, hs, hw, hy⟩ := hb.place hc
  obtain ⟨rfl, rfl⟩ := h.unique hwy
  have found {t : Token} (ht : p.node.childTokens.find? Token.isIdentifier = some t) :
      ∃ x, m.DeclaredAt p t x ∧ x.kind = .type :=
    exists_declaredAt (Draft.mem_all_of_type hp hk ht) b
  refine ⟨fun hk hm => found (hy hk hm), fun hk => ?_⟩
  obtain ⟨x, hx, hxk⟩ := found (hw hk)
  have hwk := (h.isWord.2.resolve_left hk).1
  refine ⟨x, hx, hxk, ?_⟩
  rw [hx.declaration]
  exact Tree.span_ne hp (List.mem_of_find?_eq_some (hw hk)) h.isWord.1 (by rw [hwk]; decide)
    (by rw [hwk]; decide) hs

/-- A constructor is called like the name of the type around it, and so is the type, unless the
word before its name is a name itself. -/
theorem constructor_declaredAt_csharp (hp : p ∈ (Tree.parse .csharp s).nodes)
    (hk : p.kind = .constructorDeclaration) (b : Bool) :
    let m := build (.parse .csharp s) b
    ∃ q word name, p.parent? = some q ∧ q.kind = .classDeclaration ∧ NamesType q.node word name ∧
      ∃ t x, m.DeclaredAt p t x ∧ x.kind.isConstructor = true ∧ x.name = name.value ∧
        (word.kind = .typeKeyword → name.isMissing = false →
          ∃ y, m.DeclaredAt q name y ∧ y.kind = .type ∧ x.name = y.name) ∧
        (word.kind ≠ .typeKeyword →
          ∃ y, m.DeclaredAt q word y ∧ y.kind = .type ∧ String.ofList y.name = "record") := by
  intro m
  obtain ⟨nm, c, n, q, hc, hb, hq, hqk, d, k, hd, hb'⟩ := Tree.beginsConstructor_csharp hp hk
  obtain ⟨t, ht, -, rfl⟩ := hb.place hc
  obtain ⟨word, name, hn, hv, -⟩ := hb'.place hd
  obtain ⟨i, scope, hm⟩ := Draft.mem_all_of_constructor hp hk ht
  obtain ⟨x, hx, hxk⟩ := exists_declaredAt hm b
  obtain ⟨htype, hrecord⟩ := type_declaredAt (Tree.of_parent? hp hq).1 hqk b hn
  refine ⟨q, word, name, hq, hqk, hn, t, x, hx, by rw [hxk]; rfl, hx.name.trans hv.symm, ?_, ?_⟩
  · intro hw hm
    obtain ⟨y, hy, hyk⟩ := htype hw hm
    exact ⟨y, hy, hyk, hx.name.trans (hv.symm.trans hy.name.symm)⟩
  · intro hw
    obtain ⟨y, hy, hyk, -⟩ := hrecord hw
    refine ⟨y, hy, hyk, ?_⟩
    rw [hy.name]
    exact (hn.isWord.2.resolve_left hw).2

/-- A constructor is declared at the first `New` there is, unless it stands behind a dot. -/
theorem constructor_declaredAt_visualBasic (hp : p ∈ (Tree.parse .visualBasic s).nodes)
    (hk : p.kind = .constructorDeclaration) (b : Bool) {u w : List Token} {first : Token}
    (h : p.node.present = u ++ first :: w) (hf : first.kind = .newKeyword)
    (hu : ∀ v ∈ u, v.kind ≠ .newKeyword) (hd : ∀ d, u.getLast? = some d → d.kind ≠ .dot) :
    ∃ x, (build (.parse .visualBasic s) b).DeclaredAt p first x ∧ x.kind.isConstructor = true ∧
      ∀ v ∈ w, x.declaration ≠ v.span := by
  obtain ⟨c, n, hc, hb⟩ := Tree.beginsConstructor_visualBasic hp hk
  have hx := hb.place hc h hf hu hd
  obtain ⟨i, scope, hm⟩ := Draft.mem_all_of_constructor hp hk hx
  obtain ⟨x, hx', hxk⟩ := exists_declaredAt hm b
  refine ⟨x, hx', by rw [hxk]; rfl, fun v hv => ?_⟩
  have hsorted : p.node.present.Pairwise fun x y => x.span.stop ≤ y.span.start := by
    rw [Node.present, Node.tokens, hc]
    exact (c.pairwise_tokens n).filter _
  have hpresent : first.isMissing = false := by
    have hm : first ∈ p.node.present := h ▸ List.mem_append_right _ List.mem_cons_self
    simpa using (List.mem_filter.1 hm).2
  rw [h, List.pairwise_append, List.pairwise_cons] at hsorted
  rw [hx'.declaration]
  exact Tree.span_ne hp (List.mem_of_find?_eq_some hx) hpresent (by rw [hf]; decide)
    (by rw [hf]; decide) (hsorted.2.1.1 v hv)

section

variable {before u w : List Token} {sub new first : Token}

/-- A constructor is declared at the `New` behind `Sub`, if there is none before that. -/
theorem constructor_declaredAt_new (hp : p ∈ (Tree.parse .visualBasic s).nodes)
    (hk : p.kind = .constructorDeclaration) (b : Bool)
    (hn : NamesConstructor p.node before sub new) (hv : ∀ v ∈ before, v.kind ≠ .newKeyword) :
    ∃ x, (build (.parse .visualBasic s) b).DeclaredAt p new x ∧ x.kind.isConstructor = true := by
  obtain ⟨rest, hpr⟩ := hn.present
  have hsplit : p.node.present = before ++ [sub] ++ new :: rest := by
    rw [hpr, List.append_assoc]
    rfl
  have hlacks : ∀ v ∈ before ++ [sub], v.kind ≠ .newKeyword := by
    intro v hvm
    rcases List.mem_append.1 hvm with hvm | hvm
    · exact hv v hvm
    · rw [List.mem_singleton.1 hvm, hn.isSub]
      exact nofun
  have hlast : ∀ d, (before ++ [sub]).getLast? = some d → d.kind ≠ .dot := by
    intro d hd
    rw [List.getLast?_concat] at hd
    rw [← Option.some.inj hd, hn.isSub]
    exact nofun
  obtain ⟨x, hx, hxk, -⟩ := constructor_declaredAt_visualBasic hp hk b hsplit hn.isNew hlacks hlast
  exact ⟨x, hx, hxk⟩

/-- A constructor is declared at a `New` among its attributes, if the first there is not behind a
dot. -/
theorem constructor_declaredAt_earlier (hp : p ∈ (Tree.parse .visualBasic s).nodes)
    (hk : p.kind = .constructorDeclaration) (b : Bool)
    (hn : NamesConstructor p.node before sub new) (he : before = u ++ first :: w)
    (hf : first.kind = .newKeyword) (hu : ∀ v ∈ u, v.kind ≠ .newKeyword)
    (hd : ∀ d, u.getLast? = some d → d.kind ≠ .dot) :
    ∃ x, (build (.parse .visualBasic s) b).DeclaredAt p first x ∧ x.kind.isConstructor = true ∧
      x.declaration ≠ new.span := by
  obtain ⟨rest, hpr⟩ := hn.present
  have hsplit : p.node.present = u ++ first :: (w ++ sub :: new :: rest) := by
    rw [hpr, he, List.append_assoc]
    rfl
  obtain ⟨x, hx, hxk, hne⟩ := constructor_declaredAt_visualBasic hp hk b hsplit hf hu hd
  refine ⟨x, hx, hxk, hne new (List.mem_append_right _ ?_)⟩
  exact List.mem_cons_of_mem _ List.mem_cons_self

end

/-- Where the parser and the model agree on what a declaration is called, and where they do not. -/
theorem declared_at_names (l : Language) (s : SourceText) (b : Bool) :
    let t := Tree.parse l s
    let m := build t b
    (l = .csharp →
      (∀ p ∈ t.nodes, p.kind = .classDeclaration → ∃ word name, NamesType p.node word name ∧
        (word.kind = .typeKeyword → name.isMissing = false →
          ∃ x, m.DeclaredAt p name x ∧ x.kind = .type) ∧
        (word.kind ≠ .typeKeyword →
          ∃ x, m.DeclaredAt p word x ∧ x.kind = .type ∧ x.declaration ≠ name.span)) ∧
      ∀ p ∈ t.nodes, p.kind = .constructorDeclaration → ∃ q word name, p.parent? = some q ∧
        q.kind = .classDeclaration ∧ NamesType q.node word name ∧
        ∃ t x, m.DeclaredAt p t x ∧ x.kind.isConstructor = true ∧ x.name = name.value ∧
          (word.kind = .typeKeyword → name.isMissing = false →
            ∃ y, m.DeclaredAt q name y ∧ y.kind = .type ∧ x.name = y.name) ∧
          (word.kind ≠ .typeKeyword →
            ∃ y, m.DeclaredAt q word y ∧ y.kind = .type ∧ String.ofList y.name = "record")) ∧
    (l = .visualBasic → ∀ p ∈ t.nodes, p.kind = .constructorDeclaration →
      ∃ before sub new, NamesConstructor p.node before sub new ∧
        ((∀ v ∈ before, v.kind ≠ .newKeyword) →
          ∃ x, m.DeclaredAt p new x ∧ x.kind.isConstructor = true) ∧
        ∀ u first w, before = u ++ first :: w → first.kind = .newKeyword →
          (∀ v ∈ u, v.kind ≠ .newKeyword) → (∀ d, u.getLast? = some d → d.kind ≠ .dot) →
          ∃ x, m.DeclaredAt p first x ∧ x.kind.isConstructor = true ∧
            x.declaration ≠ new.span) := by
  intro t m
  refine ⟨?_, ?_⟩
  · rintro rfl
    refine ⟨fun p hp hk => ?_, fun p hp hk => constructor_declaredAt_csharp hp hk b⟩
    obtain ⟨_, c, n, hc, hb⟩ := Tree.beginsType hp hk
    obtain ⟨word, name, hn, -⟩ := hb.place hc
    exact ⟨word, name, hn, type_declaredAt hp hk b hn⟩
  · rintro rfl p hp hk
    obtain ⟨c, n, hc, hb⟩ := Tree.beginsConstructor_visualBasic hp hk
    obtain ⟨before, sub, new, hn⟩ := hb.names hc
    exact ⟨before, sub, new, hn, constructor_declaredAt_new hp hk b hn,
      fun u first w => constructor_declaredAt_earlier hp hk b hn⟩

/-- A record is declared at the word `record`, and a constructor with a `New` in its attributes at
that one. -/
theorem declared_apart :
    (let s := SourceText.ofText "record R { R() { } }".toList 0
      ∃ p ∈ (Tree.parse .csharp s).nodes, p.kind = .classDeclaration ∧
        ∃ word name, NamesType p.node word name ∧ name.value = ['R'] ∧
          ∃ x, (build (.parse .csharp s) false).DeclaredAt p word x ∧ x.kind = .type ∧
            x.declaration ≠ name.span) ∧
    (let s := SourceText.ofText "Class C\n<A(New B)> Sub New()\nEnd Sub\nEnd Class\n".toList 0
      ∃ p ∈ (Tree.parse .visualBasic s).nodes, p.kind = .constructorDeclaration ∧
        ∃ before sub new, NamesConstructor p.node before sub new ∧
          ∃ first ∈ before, ∃ x, (build (.parse .visualBasic s) false).DeclaredAt p first x ∧
            x.declaration ≠ new.span) := by
  constructor
  · intro s
    have h : (Tree.parse .csharp s).nodes.any (fun p => p.kind == .classDeclaration &&
        CSharp.headLength 0 p.node.lexemes == 0 &&
          (p.node.childTokens.take 2).map (fun t => (t.kind, t.value)) ==
            [(.identifier, "record".toList), (.identifier, ['R'])]) = true := by
      decide +kernel
    obtain ⟨p, hp, hb⟩ := Array.any_eq_true'.1 h
    simp only [Bool.and_eq_true, beq_iff_eq] at hb
    obtain ⟨⟨hk, hz⟩, hts⟩ := hb
    obtain ⟨word, name, hn, -, hrecord⟩ :=
      ((declared_at_names .csharp s false).1 rfl).1 p hp hk
    obtain ⟨before, more, rest, he, hl, hm⟩ := hn.elements
    obtain rfl := List.length_eq_zero_iff.1 (hl.trans hz)
    rw [Node.childTokens, he] at hts
    rcases hm with rfl | ⟨k, rfl, hkk⟩
    · obtain ⟨hw, hv⟩ := List.cons.inj hts
      have hw : word.kind = .identifier := congrArg Prod.fst hw
      have hv : name.value = ['R'] := congrArg Prod.snd (List.cons.inj hv).1
      obtain ⟨x, hx, hxk, hne⟩ := hrecord (by rw [hw]; decide)
      exact ⟨p, hp, hk, word, name, hn, hv, x, hx, hxk, hne⟩
    · -- only one word for a type is there
      have hk : k.kind = .identifier := congrArg Prod.fst (List.cons.inj (List.cons.inj hts).2).1
      cases hkk.symm.trans hk
  · intro s
    have h : (Tree.parse .visualBasic s).nodes.any (fun p => p.kind == .constructorDeclaration &&
        VisualBasic.headLength true p.node.lexemes == 7 &&
          (p.node.present.take 7).map Token.kind == [.operator, .identifier, .openParen] ++
            .newKeyword :: [.identifier, .closeParen, .operator]) = true := by
      decide +kernel
    obtain ⟨p, hp, hb⟩ := Array.any_eq_true'.1 h
    simp only [Bool.and_eq_true, beq_iff_eq] at hb
    obtain ⟨⟨hk, hl⟩, hts⟩ := hb
    obtain ⟨before, sub, new, hn, -, hfirst⟩ :=
      (declared_at_names .visualBasic s false).2 rfl p hp hk
    have hbefore : p.node.present.take 7 = before := by
      obtain ⟨rest, hpr⟩ := hn.present
      rw [hpr, ← hl, ← hn.counted, List.take_left]
    rw [hbefore] at hts
    obtain ⟨u, ts, hu, huk, hts⟩ := List.map_eq_append_iff.1 hts
    obtain ⟨first, w, rfl, hf, -⟩ := List.map_eq_cons_iff.1 hts
    have hkinds {v : Token} (hv : v ∈ u) : v.kind ≠ .newKeyword ∧ v.kind ≠ .dot := by
      have hv : v.kind ∈ [.operator, .identifier, .openParen] := huk ▸ List.mem_map_of_mem hv
      constructor <;> (intro he; rw [he] at hv; revert hv; decide)
    obtain ⟨x, hx, -, hne⟩ := hfirst u first w hu hf (fun v hv => (hkinds hv).1)
      fun d hd => (hkinds (List.mem_of_getLast? hd)).2
    exact ⟨p, hp, hk, before, sub, new, hn, first,
      hu ▸ List.mem_append_right _ List.mem_cons_self, x, hx, hne⟩

end Model

end Xref
