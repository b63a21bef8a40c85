import Xref.Symbols.Model

/-!
# What names resolve to

A node never stands for anything but symbols of its model (`Model.mem_symbols_of_mem_resolve`). A
name that stands for a symbol is spelled like it, or like an alias whose target ends with a name
spelled like it (`Model.spelled_of_mem_resolve`). So whoever searches for the name of a symbol and
for the names of such aliases searches for every way of referring to it.
-/

namespace Xref.Model

variable {m : Model} {p : PlacedNode} {x y : Symbol} {name : Text} {span : Span} {t : Token}

/-! ## Symbols found by name -/

theorem mem_of_innermost? {ss : List Symbol} (h : innermost? ss = some x) : x ∈ ss := by
  induction ss generalizing x with
  | nil => cases h
  | cons y ss ih =>
      rw [innermost?] at h
      split at h
      · obtain rfl := Option.some.inj h
        exact List.mem_cons_self
      · next z hz =>
          split at h
          · obtain rfl := Option.some.inj h
            exact List.mem_cons_self
          · obtain rfl := Option.some.inj h
            exact List.mem_cons_of_mem _ (ih hz)

theorem mem_named : x ∈ m.named name ↔ x ∈ m.symbols ∧ m.key x.name = m.key name := by
  simp only [named, List.mem_filter, beq_iff_eq]

theorem of_lookup? (h : m.lookup? name span = some x) :
    x ∈ m.symbols ∧ m.key x.name = m.key name :=
  mem_named.1 (List.mem_filter.1 (mem_of_innermost? h)).1

theorem of_typeNamed? (h : m.typeNamed? name = some x) :
    x ∈ m.symbols ∧ m.key x.name = m.key name ∧ x.kind = .type := by
  obtain ⟨hs, hk⟩ := mem_named.1 (List.mem_of_find?_eq_some h)
  have ht : (x.kind == .type) = true := List.find?_some (p := fun s : Symbol => s.kind == .type) h
  exact ⟨hs, hk, eq_of_beq ht⟩

/-- What is behind a symbol is the symbol itself, or the type that its target names last. -/
theorem mem_behind (h : x ∈ (m.behind y).all) :
    x = y ∨ ∃ target, y.kind = .aliasOf target ∧
      m.typeNamed? (target.afterLast '.') = some x := by
  unfold behind at h
  split at h
  · next target hk =>
      split at h
      · next z hz =>
          obtain rfl := List.mem_singleton.1 h
          exact .inr ⟨target, hk, hz⟩
      · cases h
  · exact .inl (List.mem_singleton.1 h)

/-! ## Symbols called by initializers -/

theorem mem_of_mem_sorted {ss : List Symbol} (h : x ∈ sorted ss) : x ∈ ss :=
  List.mem_mergeSort.1 h

theorem mem_constructorsOf {ds : List Declaration} (h : x ∈ m.constructorsOf ds y) :
    x ∈ ds.map (·.symbol) ∧ x.kind.isConstructor = true := by
  obtain ⟨d, hd, rfl⟩ := List.mem_map.1 h
  obtain ⟨hd, hc⟩ := List.mem_filter.1 hd
  exact ⟨List.mem_map_of_mem hd, (Bool.and_eq_true_iff.1 hc).1⟩

theorem mem_resolveAmong {ds : List Declaration} {n : Nat}
    (h : x ∈ (m.resolveAmong ds y n).all) :
    x ∈ ds.map (·.symbol) ∧ x.kind.isConstructor = true := by
  unfold resolveAmong at h
  dsimp only at h
  have hfit {s : Symbol}
      (hs : s ∈ sorted ((m.constructorsOf ds y).filter fun s => s.kind == .constructor n)) :
      s ∈ ds.map (·.symbol) ∧ s.kind.isConstructor = true :=
    mem_constructorsOf (List.mem_filter.1 (mem_of_mem_sorted hs)).1
  split at h
  · exact mem_constructorsOf (mem_of_mem_sorted h)
  · next s hs =>
      obtain rfl := List.mem_singleton.1 h
      exact hfit (hs ▸ List.mem_cons_self)
  · exact hfit h

/-- An initializer finds the constructors with as many parameters as it has arguments, and no
others, if there are any. -/
theorem resolveAmong_of_arity {ds : List Declaration} {n : Nat} (hx : x ∈ m.constructorsOf ds y)
    (hk : x.kind = .constructor n) :
    x ∈ (m.resolveAmong ds y n).all ∧
      ∀ z ∈ (m.resolveAmong ds y n).all, z.kind = .constructor n := by
  have hm : x ∈ sorted ((m.constructorsOf ds y).filter fun s => s.kind == .constructor n) :=
    List.mem_mergeSort.2 (List.mem_filter.2 ⟨hx, beq_iff_eq.2 hk⟩)
  have hall {z : Symbol}
      (hz : z ∈ sorted ((m.constructorsOf ds y).filter fun s => s.kind == .constructor n)) :
      z.kind = .constructor n :=
    eq_of_beq (List.mem_filter.1 (mem_of_mem_sorted hz)).2
  unfold resolveAmong
  dsimp only
  split
  · next hs =>
      rw [hs] at hm
      cases hm
  · next s hs =>
      rw [hs] at hm
      refine ⟨hm, fun z hz => hall ?_⟩
      rw [hs]
      exact hz
  · exact ⟨hm, fun z hz => hall hz⟩

/-! ## Nodes -/

theorem mem_symbols_of_mem_resolve (h : x ∈ (m.resolve p).all) : x ∈ m.symbols := by
  unfold resolve at h
  split at h
  · split at h
    · cases h
    · split at h
      · next y hy =>
          rcases mem_behind h with rfl | ⟨target, -, ht⟩
          · exact (of_lookup? hy).1
          · exact (of_typeNamed? ht).1
      · cases h
  · unfold resolveInitializer at h
    split at h
    · cases h
    · exact (mem_resolveAmong h).1
  · cases h

theorem isConstructor_of_mem_resolve (hk : p.kind = .constructorInitializer)
    (h : x ∈ (m.resolve p).all) : x.kind.isConstructor = true := by
  simp only [resolve, hk, resolveInitializer] at h
  split at h
  · cases h
  · exact (mem_resolveAmong h).2

/-- No name stands for an alias: it stands for what is behind the alias. -/
theorem isAlias_of_mem_behind (h : x ∈ (m.behind y).all) : x.kind.isAlias = false := by
  rcases mem_behind h with rfl | ⟨target, -, ht⟩
  · unfold behind at h
    cases hk : x.kind with
    | aliasOf target =>
        simp only [hk] at h
        split at h
        · next z hz =>
            obtain rfl := List.mem_singleton.1 h
            cases hk.symm.trans (of_typeNamed? hz).2.2
        · cases h
    | _ => rfl
  · rw [(of_typeNamed? ht).2.2]
    rfl

/-- A name stands for one symbol at most. -/
theorem head?_behind (h : x ∈ (m.behind y).all) : (m.behind y).all.head? = some x := by
  unfold behind at h ⊢
  split at h
  · split at h
    · obtain rfl := List.mem_singleton.1 h
      rfl
    · cases h
  · obtain rfl := List.mem_singleton.1 h
    rfl

theorem of_mem_resolve_name (hk : p.kind = .identifierName) (h : x ∈ (m.resolve p).all) :
    x.kind.isAlias = false ∧ (m.resolve p).all.head? = some x := by
  simp only [resolve, hk] at h ⊢
  split at h
  · cases h
  · split at h
    · exact ⟨isAlias_of_mem_behind h, head?_behind h⟩
    · cases h

/-- A name that stands for a symbol is spelled like it, or like an alias of it. -/
theorem spelled_of_mem_resolve (hk : p.kind = .identifierName)
    (hc : p.node.children = .token t .nil) (h : x ∈ (m.resolve p).all) :
    m.key x.name = m.key t.value ∨ ∃ y ∈ m.symbols, ∃ target, y.kind = .aliasOf target ∧
      m.key y.name = m.key t.value ∧ x.kind = .type ∧
        m.key x.name = m.key (target.afterLast '.') := by
  have hf : p.node.firstToken? = some t := by rw [Node.firstToken?, hc]; rfl
  simp only [resolve, hk, hf] at h
  split at h
  · next y hy =>
      obtain ⟨hs, hn⟩ := of_lookup? hy
      rcases mem_behind h with rfl | ⟨target, hyk, ht⟩
      · exact .inl hn
      · obtain ⟨-, hx, hxk⟩ := of_typeNamed? ht
        exact .inr ⟨y, hs, target, hyk, hn, hxk, hx⟩
  · cases h

theorem spelled_of_alias? (hc : p.node.children = .token t .nil) (h : m.alias? p = some x) :
    x ∈ m.symbols ∧ x.kind.isAlias = true ∧ m.key x.name = m.key t.value := by
  have hf : p.node.firstToken? = some t := by rw [Node.firstToken?, hc]; rfl
  unfold alias? at h
  split at h
  · obtain ⟨h, ha⟩ := Option.filter_eq_some_iff.1 h
    rw [hf] at h
    obtain ⟨hs, hn⟩ := of_lookup? h
    exact ⟨hs, ha, hn⟩
  · cases h

end Xref.Model
