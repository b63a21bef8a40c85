import Xref.Proofs.References.Agree

/-!
# The cursor in a name and just behind it

A symbol may be asked for anywhere in a name. Just behind the name it may be asked for only if
nothing begins there (`Query.symbolAt_behind`): an offset finds the last token that starts at or
before it, and that is the name when a space follows, but the comma, bracket or end of the text when
one of them touches the name, and even a token that the text lacks. None of these stands for
anything, so a symbol that is found at the start of a name is not found behind it.

One kind of token that is no name declares something, the `New` of a constructor. It can touch a
name only where the name is written in brackets.
-/

namespace Xref

namespace Tree

variable {t : Tree} {x : PlacedToken}

/-- Another token begins where the token ends. -/
def Touched (t : Tree) (x : PlacedToken) : Prop :=
  ∃ u ∈ t.tokens, u.token.span.start = x.token.span.stop

/-- Behind the start of a token, the token is found or one that stands behind it. -/
theorem InOrder.exists_findToken? (ho : t.InOrder) (hx : x ∈ t.tokens) {n : Nat}
    (h : x.token.span.start ≤ n) : ∃ v ∈ t.tokens, t.findToken? n = some v ∧
      v.token.span.start ≤ n ∧ (v = x ∨ x.token.span.stop ≤ v.token.span.start) := by
  obtain ⟨i, hi, hb, hf⟩ := findToken?_eq ho n
  obtain ⟨j, hj, rfl⟩ := Array.getElem_of_mem hx
  have hji := (hb j hj).1 h
  cases i with
  | zero => cases hji
  | succ i =>
      refine ⟨t.tokens[i], Array.getElem_mem hi, ?_, (hb i hi).2 (Nat.lt_succ_self i), ?_⟩
      · rw [hf]
        exact Array.getElem?_eq_getElem hi
      · rcases Nat.lt_or_eq_of_le (Nat.le_of_lt_succ hji) with hlt | rfl
        · exact .inr (List.pairwise_iff_getElem.1 ho j i hj hi hlt).2
        · exact .inl rfl

/-- Where nothing touches it, a token is found at its end too. -/
theorem InOrder.findToken?_stop (ho : t.InOrder) (hx : x ∈ t.tokens) (h : ¬ t.Touched x) :
    t.findToken? x.token.span.stop = some x := by
  obtain ⟨v, hv, hf, hle, rfl | hge⟩ := ho.exists_findToken? hx x.token.span.start_le_stop
  · exact hf
  · exact (h ⟨v, hv, Nat.le_antisymm hle hge⟩).elim

/-- Where a token touches another one, a token that begins there is found. -/
theorem InOrder.findToken?_of_touched (ho : t.InOrder) (h : t.Touched x) :
    ∃ v ∈ t.tokens, t.findToken? x.token.span.stop = some v ∧
      v.token.span.start = x.token.span.stop := by
  obtain ⟨u, hu, hs⟩ := h
  obtain ⟨v, hv, hf, hle, rfl | hge⟩ := ho.exists_findToken? hu (Nat.le_of_eq hs)
  · exact ⟨v, hv, hf, hs⟩
  · have := u.token.span.start_le_stop
    exact ⟨v, hv, hf, by omega⟩

end Tree

/-- A name found by lookup is no constructor, nor is what is behind it. -/
theorem Model.isConstructor_of_mem_resolve_name {m : Model} {p : PlacedNode} {x : Symbol}
    (hk : p.kind = .identifierName) (h : x ∈ (m.resolve p).all) :
    x.kind.isConstructor = false := by
  simp only [resolve, hk] at h
  split at h
  · cases h
  · split at h
    · next y hy =>
        rcases mem_behind h with rfl | ⟨target, -, ht⟩
        · have hm := (List.mem_filter.1 (mem_of_innermost? hy)).2
          exact Bool.not_eq_true' _ ▸ (Bool.and_eq_true_iff.1 hm).1
        · rw [(of_typeNamed? ht).2.2]
          rfl
    · cases h

namespace Artifacts.IsOf

variable {a : Artifacts} {l : Language} {s : SourceText} {x : Symbol} {t v : PlacedToken} {o : Nat}

/-- What declares something is a name, or the `New` of a constructor. -/
theorem kind_of_declaring (ha : a.IsOf l s) (hx : x ∈ a.model.symbols) (ht : t ∈ a.tree.tokens)
    (hs : t.token.span = x.declaration) : t.token.kind = .identifier ∨
      (l = .visualBasic ∧ t.token.kind = .newKeyword ∧ x.kind.isConstructor = true) := by
  obtain ⟨_, -, -, -, -, -, -, -, hu⟩ := ha.exists_declaring hx
  obtain ⟨i, d, hd, rfl⟩ := ha.exists_draft hx
  have hmem := List.mem_of_getElem? hd
  obtain ⟨y, hy, hyn, -⟩ := Draft.exists_token hmem
  have hys : y.token.span = d.name.span := by rw [hyn]
  obtain rfl : t = y := (hu t ht hs).trans (hu y (ha.tree ▸ hy) hys).symm
  rw [hyn]
  exact (Draft.present hmem).2

/-- What is found at a token that is neither a name nor the word of an initializer is a constructor
declared there. -/
theorem of_symbolAt_of_nameless (ha : a.IsOf l s) (hv : v ∈ a.tree.tokens)
    (hf : a.tree.findToken? o = some v) (hs : v.token.span.start = o)
    (hk : v.token.kind ≠ .identifier) (hw : a.facts.isInitializerWord v = false)
    (h : a.symbolAt o = some x) : l = .visualBasic ∧ v.token.kind = .newKeyword ∧
      x.kind.isConstructor = true ∧ v.token.span = x.declaration := by
  cases hm : v.token.isMissing with
  | true =>
      rw [symbolAt_some hf, hm, Bool.or_true, if_pos rfl] at h
      cases h
  | false =>
      have hle : o ≤ v.token.span.stop := hs ▸ v.token.span.start_le_stop
      rw [symbolAt_of_found hf hle hm hw, beq_eq_false_iff_ne.2 hk, Bool.false_and,
        if_neg Bool.false_ne_true, Option.or_none] at h
      obtain ⟨hx, hd⟩ := mem_symbols_of_declaredBy h
      rcases ha.kind_of_declaring hx hv hd with hi | ⟨hl, hn, hc⟩
      · exact (hk hi).elim
      · exact ⟨hl, hn, hc, hd⟩

theorem not_initializerWord_of_identifier (ha : a.IsOf l s) (ht : t ∈ a.tree.tokens)
    (hi : t.token.kind = .identifier) : a.facts.isInitializerWord t = false := by
  refine Bool.eq_false_iff.2 fun h => ?_
  have hw := ((ha.isInitializerWord_iff ht).1 h).2.2
  rw [hi] at hw
  cases hl : a.tree.language <;> rw [hl] at hw <;> cases hw

/-- A name stands for a symbol that it declares, or for one that is no constructor. -/
theorem of_symbolAt_name (ha : a.IsOf l s) (ht : t ∈ a.tree.tokens)
    (hi : t.token.isIdentifier = true) (hf : a.tree.findToken? o = some t)
    (hge : o ≤ t.token.span.stop) (h : a.symbolAt o = some x) :
    t.token.span = x.declaration ∨ x.kind.isConstructor = false := by
  simp only [Token.isIdentifier, Bool.and_eq_true, beq_iff_eq, Bool.not_eq_true'] at hi
  rw [symbolAt_of_found hf hge hi.2 (ha.not_initializerWord_of_identifier ht hi.1)] at h
  rcases Option.or_eq_some_iff.1 h with hd | ⟨-, hn⟩
  · exact .inl (mem_symbols_of_declaredBy hd).2
  · split at hn
    · next hk =>
        have hk := eq_of_beq (Bool.and_eq_true_iff.1 hk).2
        exact .inr (Model.isConstructor_of_mem_resolve_name hk (List.mem_of_head? hn))
    · cases hn

theorem inOrder (ha : a.IsOf l s) : a.tree.InOrder := by
  rw [ha.tree]
  exact Tree.inOrder_parse l s

theorem start_lt_stop (ha : a.IsOf l s) (ht : t ∈ a.tree.tokens)
    (hi : t.token.isIdentifier = true) : t.token.span.start < t.token.span.stop := by
  simp only [Token.isIdentifier, Bool.and_eq_true, beq_iff_eq, Bool.not_eq_true'] at hi
  have hne := Tree.text_ne_nil (ha.tree ▸ ht) hi.2 (by simp [hi.1]) (by simp [hi.1])
  exact Nat.lt_add_of_pos_right (Text.size_pos hne)

/-- All offsets in a name have the symbol of its start, and so has its end, if nothing touches it. -/
theorem symbolAt_of_inside (ha : a.IsOf l s) (ht : t ∈ a.tree.tokens)
    (hi : t.token.isIdentifier = true) (hlo : t.token.span.start ≤ o)
    (hhi : o ≤ t.token.span.stop) (h : o < t.token.span.stop ∨ ¬ a.tree.Touched t) :
    a.symbolAt o = a.symbolAt t.token.span.start := by
  have hpos := ha.start_lt_stop ht hi
  have hf : a.tree.findToken? o = some t := by
    rcases Nat.lt_or_eq_of_le hhi with hlt | rfl
    · exact Tree.findToken?_of_contains ha.inOrder ht hlo hlt
    · exact ha.inOrder.findToken?_stop ht (h.resolve_left (Nat.lt_irrefl _))
  have hstart := Tree.findToken?_of_contains ha.inOrder ht (Nat.le_refl _) hpos
  simp only [Token.isIdentifier, Bool.and_eq_true, beq_iff_eq, Bool.not_eq_true'] at hi
  have hw := ha.not_initializerWord_of_identifier ht hi.1
  rw [symbolAt_of_found hf hhi hi.2 hw, symbolAt_of_found hstart (Nat.le_of_lt hpos) hi.2 hw]

/-- Where a name is touched, what is found is another token; if that is no name nor the word of an
initializer, it has a symbol only as the `New` of a constructor. -/
theorem symbolAt_of_touched (ha : a.IsOf l s) (ht : t ∈ a.tree.tokens)
    (hi : t.token.isIdentifier = true) (h : a.tree.Touched t)
    (hn : ∀ u ∈ a.tree.tokens, u.token.span.start = t.token.span.stop → u ≠ t →
      u.token.kind ≠ .identifier ∧ a.facts.isInitializerWord u = false) :
    a.symbolAt t.token.span.stop = none ∨
      l = .visualBasic ∧ ∃ v ∈ a.tree.tokens, v.token.span.start = t.token.span.stop ∧
        v.token.kind = .newKeyword ∧ ∃ x, a.symbolAt t.token.span.stop = some x ∧
          x.kind.isConstructor = true ∧ v.token.span = x.declaration := by
  obtain ⟨v, hv, hf, hs⟩ := ha.inOrder.findToken?_of_touched h
  have hne : v ≠ t := by
    rintro rfl
    exact absurd hs (Nat.ne_of_lt (ha.start_lt_stop ht hi))
  obtain ⟨hvk, hvw⟩ := hn v hv hs hne
  cases hx : a.symbolAt t.token.span.stop with
  | none => exact .inl rfl
  | some x =>
      obtain ⟨hl, hnew, hc, hd⟩ := ha.of_symbolAt_of_nameless hv hf hs hvk hvw hx
      exact .inr ⟨hl, v, hv, hs, hnew, x, rfl, hc, hd⟩

end Artifacts.IsOf

namespace Query

variable {a : Artifacts} {l : Language} {s : SourceText} {m m' : Memo} {t : PlacedToken} {o : Nat}

/-- The symbol at an offset is that of the artifacts, whatever has been asked before. -/
theorem symbolAt_eq (ha : a.IsOf l s) (hm : m.Truthful a) (o : Nat) :
    (symbolAt a o m).1 = .ok (a.symbolAt o) :=
  (yields_symbolAt ha.tree ha.comparison_index o).run_live hm

/-- A symbol may be asked for anywhere in a name, and behind the name unless another token begins
there. Then nothing is found, save for a constructor that the other token declares. -/
theorem symbolAt_behind (ha : a.IsOf l s) (hm : m.Truthful a) (hm' : m'.Truthful a)
    (ht : t ∈ a.tree.tokens) (hi : t.token.isIdentifier = true) (hlo : t.token.span.start ≤ o)
    (hhi : o ≤ t.token.span.stop)
    (hn : ∀ u ∈ a.tree.tokens, u.token.span.start = o → u ≠ t →
      u.token.kind ≠ .identifier ∧ a.facts.isInitializerWord u = false) :
    (o < t.token.span.stop ∨ ¬ a.tree.Touched t →
      (symbolAt a o m).1 = (symbolAt a t.token.span.start m').1) ∧
    (o = t.token.span.stop → a.tree.Touched t → (symbolAt a o m).1 = .ok none ∨
      l = .visualBasic ∧ ∃ v ∈ a.tree.tokens, v.token.span.start = o ∧
        v.token.kind = .newKeyword ∧ ∃ x, (symbolAt a o m).1 = .ok (some x) ∧
          x.kind.isConstructor = true ∧ v.token.span = x.declaration) ∧
    ∀ x, (symbolAt a t.token.span.start m').1 = .ok (some x) →
      ((symbolAt a o m).1 = .ok (some x) ↔ o < t.token.span.stop ∨ ¬ a.tree.Touched t) := by
  have alike := ha.symbolAt_of_inside ht hi hlo hhi
  have touched (he : o = t.token.span.stop) (h : a.tree.Touched t) : a.symbolAt o = none ∨
      l = .visualBasic ∧ ∃ v ∈ a.tree.tokens, v.token.span.start = o ∧
        v.token.kind = .newKeyword ∧ ∃ x, a.symbolAt o = some x ∧
          x.kind.isConstructor = true ∧ v.token.span = x.declaration := by
    subst he
    exact ha.symbolAt_of_touched ht hi h hn
  have hpos := ha.start_lt_stop ht hi
  have hstart := Tree.findToken?_of_contains ha.inOrder ht (Nat.le_refl _) hpos
  rw [symbolAt_eq ha hm, symbolAt_eq ha hm']
  simp only [Except.ok.injEq]
  refine ⟨alike, touched, fun x hx => ⟨fun h => ?_, fun h => (alike h).trans hx⟩⟩
  refine Decidable.or_iff_not_imp_left.2 fun hlt htouched => ?_
  rcases touched (Nat.le_antisymm hhi (Nat.not_lt.1 hlt)) htouched with
    hnone | ⟨-, v, -, hs, -, y, hy, hc, hd⟩
  · cases h.symm.trans hnone
  · obtain rfl := Option.some.inj (h.symm.trans hy)
    rcases ha.of_symbolAt_name ht hi hstart (Nat.le_of_lt hpos) hx with hdt | hnc
    · have : t.token.span.start = v.token.span.start := by rw [hdt, hd]
      omega
    · cases hc.symm.trans hnc

/-- A local name, found where it begins and not behind it, where a semicolon touches it. -/
theorem symbolAt_behind_semicolon :
    let s := SourceText.ofText "int x;".toList 0
    let a := Artifacts.ofTree "a.cs" (.parse .csharp s)
    a.IsOf .csharp s ∧ ({} : Memo).Truthful a ∧ ∃ t ∈ a.tree.tokens,
      t.token.isIdentifier = true ∧ t.token.span = .ofSize 4 1 ∧
        (∀ u ∈ a.tree.tokens, u.token.span.start = 5 → u ≠ t →
          u.token.kind ≠ .identifier ∧ a.facts.isInitializerWord u = false) ∧
        a.tree.Touched t ∧
        ∃ x, (symbolAt a 4 {}).1 = .ok (some x) ∧ (symbolAt a 5 {}).1 ≠ .ok (some x) := by
  intro s a
  have ha : a.IsOf .csharp s := ⟨rfl, rfl, ⟨false, rfl⟩, ⟨_, _, rfl⟩, rfl⟩
  have hm := Memo.truthful_empty a
  have hx : (a.tree.tokens.any (fun t => t.token.isIdentifier && t.token.span == .ofSize 4 1) &&
      a.tree.tokens.any (fun u => u.token.span.start == 5) &&
      a.tree.tokens.all (fun u => u.token.span.start != 5 ||
        (u.token.kind != .identifier && !a.facts.isInitializerWord u)) &&
      (a.symbolAt 4).isSome) = true := by
    decide +kernel
  simp only [Bool.and_eq_true, Array.any_eq_true', Array.all_eq_true', beq_iff_eq, bne_iff_ne,
    Bool.or_eq_true, Bool.not_eq_true'] at hx
  obtain ⟨⟨⟨⟨t, ht, hi, hs⟩, u, hu, hus⟩, hn⟩, hsome⟩ := hx
  obtain ⟨x, hx⟩ := Option.isSome_iff_exists.1 hsome
  have touched : a.tree.Touched t := ⟨u, hu, by rw [hus, hs]; rfl⟩
  have hn' : ∀ u ∈ a.tree.tokens, u.token.span.start = 5 → u ≠ t →
      u.token.kind ≠ .identifier ∧ a.facts.isInitializerWord u = false := fun u hu h5 _ =>
    (hn u hu).resolve_left fun h => h h5
  have h4 : t.token.span.start = 4 := by rw [hs]; rfl
  have h5 : t.token.span.stop = 5 := by rw [hs]; rfl
  have hat : (symbolAt a 4 {}).1 = .ok (some x) := (symbolAt_eq ha hm 4).trans (congrArg _ hx)
  obtain ⟨-, -, h⟩ := symbolAt_behind ha hm hm ht hi (by omega) (Nat.le_of_eq h5.symm) hn'
  refine ⟨ha, hm, t, ht, hi, hs, hn', touched, x, hat, fun hb => ?_⟩
  rcases (h x (by rw [h4]; exact hat)).1 hb with hlt | hnot
  · omega
  · exact hnot touched

end Query

end Xref
