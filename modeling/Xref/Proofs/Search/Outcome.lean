import Xref.Proofs.Search.Exact

/-!
# How a search can end

Whatever the tree and the index, a search that is not cancelled ends with tokens of the tree, and
one that is cancelled ends with the same tokens or with the news that it is cancelled, and with
nothing else (`Strategy.run_eq`). Names with one key are searched alike: the index, the scan and the
walk look at the key only (`Strategy.found_congr`, `Strategy.select_congr`).
-/

namespace Xref

variable {t : Tree} {m : Comparison} {name name' : Text}

/-! ## Names with one key -/

theorem Comparison.eq_nil_iff_of_key_eq (h : m.key name = m.key name') :
    name = [] ↔ name' = [] := by
  constructor
  · rintro rfl
    exact key_eq_nil (h.symm.trans (key_nil m))
  · rintro rfl
    exact key_eq_nil (h.trans (key_nil m))

theorem Comparison.find?_congr (h : m.key name = m.key name') (text : Text) (start : Nat) :
    m.find? name text start = m.find? name' text start := by
  simp only [find?, h, eq_nil_iff_of_key_eq h]

theorem Token.matches_congr (h : m.key name = m.key name') (x : Token) :
    x.matches m name = x.matches m name' := by
  simp only [Token.matches, Comparison.equal, h]

namespace Tree

theorem isHit_congr (h : m.key name = m.key name') (o : Occurrence) (x : PlacedToken) :
    isHit m name o x = isHit m name' o x := by
  simp only [isHit, Token.matches_congr h]

theorem scanFrom_congr (h : m.key name = m.key name') (start : Nat) :
    t.scanFrom m name false start = t.scanFrom m name' false start := by
  induction start using visits.induct t m name with
  | case1 start hf =>
      have hf' := (Comparison.find?_congr h _ _).symm.trans hf
      rw [scanFrom_of_none hf, scanFrom_of_none hf']
  | case2 start o hf ih =>
      have hf' := (Comparison.find?_congr h _ _).symm.trans hf
      rw [scanFrom_of_some hf, scanFrom_of_some hf']
      cases hp : t.findToken? o.start with
      | none =>
          rw [hp] at ih
          exact ih
      | some x =>
          rw [hp] at ih
          dsimp only
          rw [ih, isHit_congr h]

theorem textScan_congr (h : m.key name = m.key name') :
    t.textScan m name false = t.textScan m name' false := by
  simp only [textScan, Comparison.eq_nil_iff_of_key_eq h, scanFrom_congr h]

theorem treeWalk_congr (h : m.key name = m.key name') :
    t.placedRoot.treeWalk m name false = t.placedRoot.treeWalk m name' false := by
  by_cases hn : name = []
  · have hn' := (Comparison.eq_nil_iff_of_key_eq h).1 hn
    rw [PlacedNode.treeWalk, PlacedNode.treeWalk, if_pos hn, if_pos hn']
  · have hn' : name' ≠ [] := mt (Comparison.eq_nil_iff_of_key_eq h).2 hn
    rw [treeWalk_placedRoot _ _ hn, treeWalk_placedRoot _ _ hn']
    simp only [Token.matches_congr h]

/-! ## What a scan finds is there -/

theorem mem_tokens_of_findToken? {n : Nat} {x : PlacedToken} (h : t.findToken? n = some x) :
    x ∈ t.tokens := by
  unfold findToken? at h
  split at h
  · cases h
  · exact Array.mem_of_getElem? h

theorem exists_scanFrom (start : Nat) :
    ∃ ts, t.scanFrom m name false start = .ok ts ∧ ∀ x ∈ ts, x ∈ t.tokens := by
  induction start using visits.induct t m name with
  | case1 start hf => exact ⟨[], scanFrom_of_none hf, fun x hx => by cases hx⟩
  | case2 start o hf ih =>
      rw [scanFrom_of_some hf]
      cases hp : t.findToken? o.start with
      | none =>
          rw [hp] at ih
          exact ih
      | some x =>
          rw [hp] at ih
          obtain ⟨ts, he, hm⟩ := ih
          dsimp only
          rw [he]
          split
          · refine ⟨x :: ts, rfl, fun y hy => ?_⟩
            rcases List.mem_cons.1 hy with rfl | hy
            · exact mem_tokens_of_findToken? hp
            · exact hm y hy
          · exact ⟨ts, rfl, hm⟩

theorem scanFrom_cancelled (start : Nat) :
    t.scanFrom m name true start = t.scanFrom m name false start ∨
      t.scanFrom m name true start = .error .cancelled := by
  cases hf : m.find? name t.source.chars start with
  | none =>
      left
      rw [scanFrom_of_none hf, scanFrom.eq_def]
      split
      · rfl
      · next h => rw [hf] at h; cases h
  | some o =>
      right
      rw [scanFrom.eq_def]
      split
      · next h => rw [hf] at h; cases h
      · rfl

end Tree

namespace Strategy

variable (σ : Strategy) (t : Tree) (m : Comparison) (name : Text)

/-- What a search finds if nobody cancels it. -/
def found : List PlacedToken :=
  match σ.run t m name false with
  | .ok ts => ts
  | .error _ => []

theorem exists_run : ∃ ts, σ.run t m name false = .ok ts ∧ ∀ x ∈ ts, x ∈ t.tokens := by
  cases σ with
  | skip => exact ⟨[], rfl, fun x hx => by cases hx⟩
  | textScan =>
      show ∃ ts, t.textScan m name false = .ok ts ∧ _
      unfold Tree.textScan
      split
      · exact ⟨[], rfl, fun x hx => by cases hx⟩
      · exact Tree.exists_scanFrom 0
  | treeWalk =>
      by_cases hn : name = []
      · exact ⟨[], if_pos hn, fun x hx => by cases hx⟩
      · refine ⟨_, t.treeWalk_placedRoot m hn, fun x hx => ?_⟩
        exact Array.mem_toList_iff.1 (List.mem_filter.1 hx).1

theorem run_false : σ.run t m name false = .ok (σ.found t m name) := by
  obtain ⟨ts, h, -⟩ := σ.exists_run t m name
  rw [found, h]

theorem mem_of_mem_found {x : PlacedToken} (hx : x ∈ σ.found t m name) : x ∈ t.tokens := by
  obtain ⟨ts, h, hm⟩ := σ.exists_run t m name
  rw [found, h] at hx
  exact hm x hx

/-- A search finds what it finds, unless it is cancelled and says so. -/
theorem run_eq (cancelled : Bool) :
    σ.run t m name cancelled = .ok (σ.found t m name) ∨
      (cancelled = true ∧ σ.run t m name cancelled = .error .cancelled) := by
  rw [← run_false]
  cases cancelled with
  | false => exact .inl rfl
  | true =>
      cases σ with
      | skip => exact .inl rfl
      | textScan =>
          show t.textScan m name true = t.textScan m name false ∨ _ ∧ t.textScan m name true = _
          unfold Tree.textScan
          split
          · exact .inl rfl
          · exact (Tree.scanFrom_cancelled 0).imp_right fun h => ⟨rfl, h⟩
      | treeWalk =>
          show t.placedRoot.treeWalk m name true = t.placedRoot.treeWalk m name false ∨
            _ ∧ t.placedRoot.treeWalk m name true = _
          unfold PlacedNode.treeWalk
          split
          · exact .inl rfl
          · right
            rw [walk.eq_def]
            exact ⟨rfl, rfl⟩

variable {m name} {name' : Text}

theorem found_congr (h : m.key name = m.key name') : σ.found t m name = σ.found t m name' := by
  have hr : σ.run t m name false = σ.run t m name' false := by
    cases σ with
    | skip => rfl
    | textScan => exact Tree.textScan_congr h
    | treeWalk => exact Tree.treeWalk_congr h
  rw [found, found, hr]

theorem select_congr {x : Index} (h : x.language.normalize name = x.language.normalize name') :
    select x name = select x name' := by
  rw [Language.normalize_eq_key, Language.normalize_eq_key] at h
  simp only [select, Index.mayHoldEscaped, Index.mayHold, Language.normalize_eq_key, h,
    Comparison.eq_nil_iff_of_key_eq h]

end Strategy

end Xref
