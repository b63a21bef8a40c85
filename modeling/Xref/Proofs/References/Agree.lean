import Xref.Proofs.References.Exact
import Xref.Proofs.Symbols.Named

/-!
# Symbols at offsets and references to symbols

A symbol is asked for by place, or its references are searched for by name, and one leads back to
the other (`Query.symbolAt_agrees`). What is found at an offset is referred to by the token there,
be it as definition, by name, through an alias or in an initializer, so the search finds that token
(`Artifacts.IsOf.refers_of_symbolAt`). The way back is only open to definitions and direct uses. An
alias stands for what is behind it, and an initializer may have several candidates, of which asking
by place gives the first.

Every symbol has a token that declares it, whether or not it has a name
(`Artifacts.IsOf.exists_declaring`), and a name stands for one symbol at most.
-/

namespace Xref

/-! ## The token that declares -/

namespace Artifacts.IsOf

variable {a : Artifacts} {l : Language} {s : SourceText} {x : Symbol} {t : PlacedToken}
  {k : ReferenceKind} {loc : Location} {o : Nat}

/-- A symbol is declared by a token that the text has, and by no other at its place. -/
theorem exists_declaring (ha : a.IsOf l s) (hx : x ∈ a.model.symbols) :
    ∃ d ∈ a.tree.tokens, d.token.span = x.declaration ∧ a.declaredBy d = some x ∧
      d.token.isMissing = false ∧ d.token.text ≠ [] ∧ d.parent.kind ≠ .identifierName ∧
        d.parent.kind ≠ .constructorInitializer ∧
          ∀ t ∈ a.tree.tokens, t.token.span = x.declaration → t = d := by
  obtain ⟨b, hm⟩ := ha.model
  obtain ⟨i, d, hd, rfl⟩ := ha.exists_draft hx
  have hmem := List.mem_of_getElem? hd
  obtain ⟨y, hy, hyn, hk, hk', hp⟩ := Draft.exists_token hmem
  obtain ⟨hym, hyk⟩ := Draft.present hmem
  rw [← hyn] at hym hyk
  have hyt : y.token.text ≠ [] := by
    refine Tree.text_ne_nil hy hym ?_ ?_ <;>
      rcases hyk with hyk | ⟨-, hyk, -⟩ <;> rw [hyk] <;> exact nofun
  have hs : y.token.span = d.name.span := by rw [hyn]
  have hnode : Plan.declaringNode? y.parent = some d.node := by
    rw [Plan.declaringNode?]
    rcases hp with ⟨hne, he⟩ | ⟨he, hpar⟩
    · rw [if_neg hne, he]
    · rw [if_pos he, hpar]
  have hdecl : a.declaredBy y = some (Draft.number i d).symbol := by
    rw [declaredBy_eq, hnode, Option.bind_some, hm, ha.tree, Model.declared?_node hd]
    exact if_pos (beq_iff_eq.2 hs.symm)
  refine ⟨y, ha.tree ▸ hy, hs, hdecl, hym, hyt, hk, hk', fun u hu hus => ?_⟩
  rw [ha.tree] at hu
  have hus : u.token.span = y.token.span := hus.trans hs.symm
  exact Tree.eq_of_start_eq hu hy (Token.text_ne_nil_of_span_eq hus hyt) hyt (congrArg _ hus)

theorem mem_symbols_of_declaredBy (h : a.declaredBy t = some x) :
    x ∈ a.model.symbols ∧ t.token.span = x.declaration := by
  rw [declaredBy_eq] at h
  obtain ⟨n, -, h⟩ := Option.bind_eq_some_iff.1 h
  obtain ⟨h, hs⟩ := Option.filter_eq_some_iff.1 h
  obtain ⟨D, hD, rfl⟩ := Option.map_eq_some_iff.1 h
  exact ⟨List.mem_map_of_mem (List.mem_of_find?_eq_some hD), (eq_of_beq hs).symm⟩

theorem isInitializerWord_iff (ha : a.IsOf l s) (ht : t ∈ a.tree.tokens) :
    a.facts.isInitializerWord t = true ↔ t.parent.kind = .constructorInitializer ∧
      t.token.isMissing = false ∧ a.tree.language.isCallWord t.token.kind = true := by
  rw [ha.facts]
  rw [ha.tree] at ht ⊢
  exact Tree.isInitializerWord_iff ht

/-! ## From an offset to a reference -/

/-- A name that stands for a symbol refers to it. -/
theorem exists_refers_of_name (ha : a.IsOf l s) (ht : t ∈ a.tree.tokens)
    (hp : t.parent.kind = .identifierName) (h : x ∈ (a.model.resolve t.parent).all) :
    ∃ k, Refers a x t k := by
  have hx := Model.mem_symbols_of_mem_resolve h
  have hal := (Model.of_mem_resolve_name hp h).1
  have hd : t.token.span ≠ x.declaration := by
    obtain ⟨d, -, -, -, -, -, hne, -, hu⟩ := ha.exists_declaring hx
    intro he
    rw [hu t ht he] at hp
    exact hne hp
  cases hs : a.model.alias? t.parent with
  | none => exact ⟨.reference, hal, hd, hp, h, hs⟩
  | some y => exact ⟨.aliasReference, hp, .inr ⟨hal, hd, h, by rw [hs]; rfl⟩⟩

/-- What is found at an offset is referred to by the token there. -/
theorem refers_of_symbolAt (ha : a.IsOf l s) (h : a.symbolAt o = some x) :
    x ∈ a.model.symbols ∧ ∃ t ∈ a.tree.tokens, t.token.span.start ≤ o ∧ o ≤ t.token.span.stop ∧
      ∃ k, Refers a x t k := by
  have hord : a.tree.InOrder := by
    rw [ha.tree]
    exact Tree.inOrder_parse l s
  cases hf : a.tree.findToken? o with
  | none => cases h.symm.trans (symbolAt_none hf)
  | some t =>
      obtain ⟨ht, hle⟩ := Tree.mem_of_findToken? hord hf
      rw [symbolAt_some hf] at h
      split at h
      · cases h
      next hstop =>
      simp only [Bool.or_eq_true, decide_eq_true_eq, not_or, Nat.not_lt] at hstop
      suffices hr : x ∈ a.model.symbols ∧ ∃ k, Refers a x t k from
        ⟨hr.1, t, ht, hle, hstop.1, hr.2⟩
      split at h
      · next hi =>
          obtain ⟨hp, hm, hw⟩ := (ha.isInitializerWord_iff ht).1 hi
          have hx := List.mem_of_head? h
          exact ⟨Model.mem_symbols_of_mem_resolve hx, .constructorInitializer,
            Model.isConstructor_of_mem_resolve hp hx, hp, hm, hw, hx⟩
      · rcases Option.or_eq_some_iff.1 h with hd | ⟨-, hn⟩
        · obtain ⟨hx, hs⟩ := mem_symbols_of_declaredBy hd
          exact ⟨hx, .definition, hs⟩
        · split at hn
          · next hk =>
              have hp := eq_of_beq (Bool.and_eq_true_iff.1 hk).2
              have hx := List.mem_of_head? hn
              exact ⟨Model.mem_symbols_of_mem_resolve hx, ha.exists_refers_of_name ht hp hx⟩
          · cases hn

/-! ## From a reference to its offset -/

/-- Where a token is found that does not call for an initializer's constructor stands what the token
declares or stands for. -/
theorem symbolAt_of_found (hf : a.tree.findToken? o = some t) (hge : o ≤ t.token.span.stop)
    (hm : t.token.isMissing = false) (hw : a.facts.isInitializerWord t = false) :
    a.symbolAt o = (a.declaredBy t).or
      (if t.token.kind == .identifier && t.parent.kind == .identifierName then
        a.firstSymbol t.parent else none) := by
  rw [symbolAt_some hf, hm, hw, decide_eq_false (Nat.not_lt.2 hge), Bool.or_false,
    if_neg Bool.false_ne_true, if_neg Bool.false_ne_true]

theorem findToken?_start (ha : a.IsOf l s) (ht : t ∈ a.tree.tokens) (hne : t.token.text ≠ []) :
    a.tree.findToken? t.token.span.start = some t := by
  have hs : t.token.span.stop = t.token.span.start + t.token.text.size := rfl
  have hpos := Text.size_pos hne
  rw [ha.tree] at ht ⊢
  exact Tree.findToken?_of_contains (Tree.inOrder_parse l s) ht (Nat.le_refl _) (by omega)

/-- At the start of a token outside initializers stands what the token declares or stands for. -/
theorem symbolAt_start (ha : a.IsOf l s) (ht : t ∈ a.tree.tokens) (hm : t.token.isMissing = false)
    (hne : t.token.text ≠ []) (hp : t.parent.kind ≠ .constructorInitializer) :
    a.symbolAt t.token.span.start = (a.declaredBy t).or
      (if t.token.kind == .identifier && t.parent.kind == .identifierName then
        a.firstSymbol t.parent else none) :=
  symbolAt_of_found (ha.findToken?_start ht hne) t.token.span.start_le_stop hm
    (Bool.eq_false_iff.2 fun h => hp ((ha.isInitializerWord_iff ht).1 h).1)

/-- At the declaration of a symbol the symbol is found. -/
theorem symbolAt_declaration (ha : a.IsOf l s) (hx : x ∈ a.model.symbols)
    (ht : t ∈ a.tree.tokens) (hs : t.token.span = x.declaration) :
    a.symbolAt t.token.span.start = some x := by
  obtain ⟨d, hd, -, hdecl, hm, hne, -, hp, hu⟩ := ha.exists_declaring hx
  obtain rfl := hu t ht hs
  rw [ha.symbolAt_start ht hm hne hp, hdecl]
  rfl

/-- At a name that stands for a symbol the symbol is found. -/
theorem symbolAt_name (ha : a.IsOf l s) (ht : t ∈ a.tree.tokens)
    (hp : t.parent.kind = .identifierName) (h : x ∈ (a.model.resolve t.parent).all) :
    a.symbolAt t.token.span.start = some x := by
  obtain ⟨-, hi, hm⟩ := ha.children_parent ht hp
  have hne : t.token.text ≠ [] := by
    rw [ha.tree] at ht
    exact Tree.text_ne_nil ht hm (by rw [hi]; exact nofun) (by rw [hi]; exact nofun)
  have hdecl : a.declaredBy t = none := by
    refine Option.eq_none_iff_forall_ne_some.2 fun y hy => ?_
    obtain ⟨hys, hs⟩ := mem_symbols_of_declaredBy hy
    obtain ⟨d, -, -, -, -, -, hk, -, hu⟩ := ha.exists_declaring hys
    rw [hu t ht hs] at hp
    exact hk hp
  rw [ha.symbolAt_start ht hm hne (by rw [hp]; exact nofun), hdecl, hi, hp]
  exact (Model.of_mem_resolve_name hp h).2

/-- A candidate that is classified as a definition or a direct use is one. -/
theorem symbolAt_of_classify (ha : a.IsOf l s) (hx : x ∈ a.model.symbols)
    (ht : t ∈ a.tree.tokens) (h : a.classify x t = some k)
    (hk : k = .definition ∨ k = .reference) : a.symbolAt t.token.span.start = some x := by
  by_cases hd : t.token.span = x.declaration
  · exact ha.symbolAt_declaration hx ht hd
  obtain ⟨hr, -⟩ := (ha.classify_elsewhere hx ht hd).1 h
  rcases hk with rfl | rfl
  · exact (hd hr).elim
  · exact ha.symbolAt_name ht hr.2.2.1 hr.2.2.2.1

theorem symbolAt_of_mem_references (ha : a.IsOf l s) (hx : x ∈ a.model.symbols)
    (h : loc ∈ a.references x) (hk : loc.kind = .definition ∨ loc.kind = .reference) :
    a.symbolAt loc.span.start = some x := by
  rw [references_eq] at h
  rcases List.mem_append.1 (Location.mem_of_mem_inOrder h) with h | h
  · rcases List.mem_append.1 h with h | h
    · obtain ⟨n, -, t, ht, k, hc, rfl⟩ := mem_locateNames_iff.1 h
      exact ha.symbolAt_of_classify hx (mem_tokens_of_mem_found ht) hc hk
    · obtain ⟨t, ht, hs, rfl⟩ := of_mem_missedDefinition h
      exact ha.symbolAt_declaration hx ht hs
  · obtain ⟨t, -, -, rfl⟩ := (ha.mem_locateInitializers hx).1 h
    rcases hk with hk | hk <;> cases hk

end Artifacts.IsOf

namespace Query

variable {a : Artifacts} {l : Language} {s : SourceText} {m m' : Memo}

/-- The symbol at an offset has a reference around the offset, and at the definition and the direct
references of a symbol is that symbol. -/
theorem symbolAt_agrees (ha : a.IsOf l s)
    (hk : l = .visualBasic → ∀ c ∈ s.chars, (Unicode.lowercase c).length = 1)
    (hm : m.Truthful a) (hm' : m'.Truthful a) :
    (∀ o x, (symbolAt a o m).1 = .ok (some x) → x.name ≠ [] →
      ∃ ls, (references a x false m').1 = .ok ls ∧
        ∃ loc ∈ ls, loc.span.start ≤ o ∧ o ≤ loc.span.stop) ∧
    ∀ x ∈ a.model.symbols, ∃ ls, (references a x false m').1 = .ok ls ∧
      ∀ loc ∈ ls, loc.kind = .definition ∨ loc.kind = .reference →
        (symbolAt a loc.span.start m).1 = .ok (some x) := by
  have hkeep := Comparison.keepsLength_ofLanguage hk
  have hfind (x : Symbol) : (references a x false m').1 = .ok (a.references x) :=
    ha.run_references x hm'
  have hat (o : Nat) : (symbolAt a o m).1 = .ok (a.symbolAt o) :=
    (yields_symbolAt ha.tree ha.comparison_index o).run_live hm
  constructor
  · intro o x h hn
    obtain ⟨hx, t, ht, hle, hge, k, hr⟩ :=
      ha.refers_of_symbolAt (Except.ok.inj ((hat o).symm.trans h))
    have hloc := (ha.mem_references hkeep hx hn).2 ⟨t, ht, k, hr, rfl⟩
    exact ⟨_, hfind x, _, hloc, hle, hge⟩
  · intro x hx
    refine ⟨_, hfind x, fun loc hl hkind => ?_⟩
    rw [hat, ha.symbolAt_of_mem_references hx hl hkind]

/-- A constructor, found at the word that declares it. -/
theorem symbolAt_agrees_at_new :
    let s := SourceText.ofText "Class B\n Sub New()\n End Sub\nEnd Class\n".toList 0
    let a := Artifacts.ofTree "b.vb" (.parse .visualBasic s)
    a.IsOf .visualBasic s ∧ (∀ c ∈ s.chars, (Unicode.lowercase c).length = 1) ∧
      ({} : Memo).Truthful a ∧ ∃ x ∈ a.model.symbols, x.name ≠ [] ∧
        (symbolAt a 14 {}).1 = .ok (some x) ∧ ∃ ls, (references a x false {}).1 = .ok ls ∧
          (∃ loc ∈ ls, loc.span.start ≤ 14 ∧ 14 ≤ loc.span.stop) ∧
            ∀ loc ∈ ls, loc.kind = .definition ∨ loc.kind = .reference →
              (symbolAt a loc.span.start {}).1 = .ok (some x) := by
  intro s a
  have ha : a.IsOf .visualBasic s := ⟨rfl, rfl, ⟨false, rfl⟩, ⟨_, _, rfl⟩, rfl⟩
  have hall : s.chars.all (fun c => (Unicode.lowercase c).length == 1) = true := by
    decide +kernel
  have hk : ∀ c ∈ s.chars, (Unicode.lowercase c).length = 1 := fun c hc =>
    eq_of_beq (List.all_eq_true.1 hall c hc)
  have h : a.model.symbols.any (fun x => x.name == "New".toList &&
      (symbolAt a 14 {}).1.toOption == some (some x)) = true := by
    decide +kernel
  obtain ⟨x, hx, hb⟩ := List.any_eq_true.1 h
  simp only [Bool.and_eq_true, beq_iff_eq] at hb
  have hn : x.name ≠ [] := by
    rw [hb.1]
    exact List.cons_ne_nil _ _
  have hat : (symbolAt a 14 {}).1 = .ok (some x) := by
    cases hr : (symbolAt a 14 {}).1 with
    | error e =>
        rw [hr] at hb
        cases hb.2
    | ok y =>
        rw [hr] at hb
        rw [Option.some.inj hb.2]
  have hm := Memo.truthful_empty a
  obtain ⟨hfind, hback⟩ := symbolAt_agrees ha (fun _ => hk) hm hm
  obtain ⟨ls, hls, hloc⟩ := hfind 14 x hat hn
  obtain ⟨ls', hls', hall⟩ := hback x hx
  obtain rfl : ls = ls' := Except.ok.inj (hls.symm.trans hls')
  exact ⟨ha, hk, hm, x, hx, hn, hat, ls, hls, hloc, hall⟩

end Query

end Xref
