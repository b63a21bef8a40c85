import Xref.Proofs.Cache.Run
import Xref.Proofs.Search.Exact

/-!
# The tokens of a name

A cache that remembers nothing searches with the strategy that the index chooses. In C# it finds
every token of the name, whatever the index chose. In Visual Basic it finds them too unless the text
is scanned: a character may fold to several, so a piece of the text may have the key of the name
without being a name, and where such a piece begins before a token and ends inside it, the scan goes
on behind the beginning of the token. These tokens are missed and no others
(`Query.tokensOf_visualBasic`).
-/

namespace Xref.Query

/-- Each token once, and in document order. -/
def InDocumentOrder (ts : List PlacedToken) : Prop :=
  ts.Pairwise fun x y => x.token.id < y.token.id ∧ x.token.span.stop ≤ y.token.span.start

/-- The text is scanned for the name, and an occurrence that the scan visits straddles the token. -/
def Misses (a : Artifacts) (name : Text) (x : PlacedToken) : Prop :=
  Strategy.select a.index name = .textScan ∧
    ∃ o ∈ a.tree.visits a.comparison name 0, o.straddles x.token = true

variable {a : Artifacts} {l : Language} {s : SourceText} {f : Seeds} {rate : Float} {name : Text}

theorem comparison_of_languageName (hl : a.languageName = l.name) :
    a.comparison = .ofLanguage l := by
  have h := a.comparison_eq
  rw [hl, Artifacts.ofName?_name] at h
  exact (Option.some.inj h).symm

/-- What a search on a fresh cache finds, in either language. -/
theorem tokensOf_parse (ht : a.tree = .parse l s) (hx : a.index = .build f a.tree rate)
    (hl : a.languageName = l.name) (hn : name ≠ []) :
    (tokensOf a name false {}).1 = .ok (a.tree.tokens.toList.filter
      ((Strategy.select a.index name).finds a.tree a.comparison name)) := by
  rw [tokensOf_fresh hn, comparison_of_languageName hl, hx, ht]
  exact Strategy.run_select f rate hn

theorem not_misses (ht : a.tree = .parse l s) (hx : a.index = .build f a.tree rate)
    (hl : a.languageName = l.name) (hn : name ≠ [])
    (hk : (Comparison.ofLanguage l).KeepsLength s.chars) {x : PlacedToken}
    (hm : x ∈ a.tree.tokens) (hi : x.token.matches a.comparison name = true) :
    ¬ Misses a name x := by
  have hc := comparison_of_languageName hl
  have ho := Strategy.run_select_of_keepsLength f rate hn hk
  have hr := Strategy.run_select (l := l) (s := s) f rate hn
  simp only [← ht, ← hx, ← hc] at ho hr
  rintro ⟨hs, o, hv, hst⟩
  have he := Except.ok.inj (hr.symm.trans ho)
  have hmem : x ∈ a.tree.tokens.toList.filter fun y => y.token.matches a.comparison name :=
    List.mem_filter.2 ⟨Array.mem_toList_iff.2 hm, hi⟩
  rw [← he, hs] at hmem
  have hseen := (Tree.isSeen_iff.1 (List.mem_filter.1 hmem).2).2.2 o hv
  rw [hst] at hseen
  cases hseen

theorem finds_iff {x : PlacedToken} :
    (Strategy.select a.index name).finds a.tree a.comparison name x = true ↔
      x.token.matches a.comparison name = true ∧ ¬ Misses a name x := by
  unfold Misses
  cases Strategy.select a.index name with
  | skip => exact ⟨fun h => ⟨h, nofun⟩, And.left⟩
  | treeWalk => exact ⟨fun h => ⟨h, nofun⟩, And.left⟩
  | textScan =>
      refine Tree.isSeen_iff.trans (and_congr_right fun _ => ?_)
      rw [and_iff_right (Nat.zero_le _), and_iff_right rfl, not_exists]
      simp only [not_and, Bool.not_eq_true]

theorem inDocumentOrder_filter (ht : a.tree = .parse l s) (p : PlacedToken → Bool) :
    InDocumentOrder (a.tree.tokens.toList.filter p) := by
  rw [ht]
  exact List.Pairwise.filter p (Tree.inOrder_parse l s)

/-- A search in C# finds the tokens of the name. -/
theorem tokensOf_csharp (ht : a.tree = .parse .csharp s) (hx : a.index = .build f a.tree rate)
    (hl : a.languageName = Language.csharp.name) (hn : name ≠ []) :
    ∃ ts, (tokensOf a name false {}).1 = .ok ts ∧
      (∀ x, x ∈ ts ↔ x ∈ a.tree.tokens ∧ x.token.kind = .identifier ∧
        x.token.isMissing = false ∧ x.token.value = name) ∧ InDocumentOrder ts := by
  have hc := comparison_of_languageName hl
  refine ⟨_, tokensOf_parse ht hx hl hn, fun x => ?_, inDocumentOrder_filter ht _⟩
  have hk : (Comparison.ofLanguage .csharp).KeepsLength s.chars :=
    Comparison.keepsLength_ordinal s.chars
  rw [List.mem_filter, Array.mem_toList_iff]
  refine and_congr_right fun hm => ?_
  have hmatch : x.token.matches a.comparison name = true ↔
      x.token.kind = .identifier ∧ x.token.isMissing = false ∧ x.token.value = name := by
    rw [hc]
    exact Tree.matches_iff
  rw [← hmatch, finds_iff]
  exact ⟨And.left, fun h => ⟨h, not_misses ht hx hl hn hk hm h⟩⟩

theorem tokensOf_csharp_at_sign :
    let s := SourceText.ofText "int @x;".toList 0
    let a := Artifacts.ofTree "a.cs" (.parse .csharp s)
    ∃ ts, (tokensOf a ['x'] false {}).1 = .ok ts ∧
      (∀ x, x ∈ ts ↔ x ∈ a.tree.tokens ∧ x.token.kind = .identifier ∧
        x.token.isMissing = false ∧ x.token.value = ['x']) ∧ InDocumentOrder ts :=
  tokensOf_csharp rfl rfl rfl (by decide)

/-- A search in Visual Basic finds the tokens whose names fold like the name, except for those that
an occurrence straddles. Where every character folds to one, there are no such tokens. -/
theorem tokensOf_visualBasic (ht : a.tree = .parse .visualBasic s)
    (hx : a.index = .build f a.tree rate) (hl : a.languageName = Language.visualBasic.name)
    (hn : name ≠ []) :
    ∃ ts, (tokensOf a name false {}).1 = .ok ts ∧
      (∀ x, x ∈ ts ↔ (x ∈ a.tree.tokens ∧ x.token.kind = .identifier ∧
        x.token.isMissing = false ∧ x.token.value.fold = name.fold) ∧ ¬ Misses a name x) ∧
      InDocumentOrder ts ∧
      ((∀ c ∈ s.chars, (Unicode.lowercase c).length = 1) →
        ∀ x ∈ a.tree.tokens, x.token.kind = .identifier → x.token.isMissing = false →
          x.token.value.fold = name.fold → ¬ Misses a name x) := by
  have hc := comparison_of_languageName hl
  have hmatch (x : PlacedToken) : x.token.matches a.comparison name = true ↔
      x.token.kind = .identifier ∧ x.token.isMissing = false ∧
        x.token.value.fold = name.fold := by
    rw [hc]
    exact Tree.matches_iff
  refine ⟨_, tokensOf_parse ht hx hl hn, fun x => ?_, inDocumentOrder_filter ht _, ?_⟩
  · rw [List.mem_filter, Array.mem_toList_iff, ← hmatch, finds_iff, and_assoc]
  · intro hk x hm hi hp he
    exact not_misses ht hx hl hn (Comparison.keepsLength_ignoreCase hk) hm
      ((hmatch x).2 ⟨hi, hp, he⟩)

/-- The name and the text that show what is missed. The first character and the mark behind it fold
to themselves, and so does each of the last two: the name occurs where the text begins. -/
def straddledName : Text :=
  ['\u0130', '\u0130']

/-- A document in which an occurrence straddles a token of the name. -/
def straddledDocument : Artifacts :=
  .ofTree "a.vb" (.parse .visualBasic (.ofText ('i' :: '\u0307' :: straddledName) 0))

theorem select_straddled :
    Strategy.select straddledDocument.index straddledName = .textScan := by
  have he : straddledDocument.index.escapedCount = 0 := by decide +kernel
  have hm : straddledDocument.tree.tokens.toList.any
      (fun x => x.token.matches .ignoreCase straddledName) = true := by decide +kernel
  obtain ⟨x, hx, hi⟩ := List.any_eq_true.1 hm
  have hh : straddledDocument.index.mayHold straddledName = true :=
    (Index.knows_build _ _ _).mayHold (Array.mem_toList_iff.1 hx) hi
  rw [Strategy.select, if_neg (by decide), Index.mayHoldEscaped, he, hh]
  rfl

/-- The token is there, and the search finds nothing. -/
theorem tokensOf_straddled :
    (tokensOf straddledDocument straddledName false {}).1 = .ok [] ∧
      ∃ x ∈ straddledDocument.tree.tokens, x.token.kind = .identifier ∧
        x.token.isMissing = false ∧ x.token.value = straddledName := by
  have hn : straddledName ≠ [] := by decide
  obtain ⟨ts, h, hts, -⟩ := tokensOf_visualBasic (a := straddledDocument) rfl rfl rfl hn
  have hv : straddledDocument.tree.tokens.toList.all (fun x =>
      x.token.value.fold != straddledName.fold ||
        (straddledDocument.tree.visits .ignoreCase straddledName 0).any
          (·.straddles x.token)) = true := by decide +kernel
  have hnil : ts = [] := by
    refine List.eq_nil_iff_forall_not_mem.2 fun x hx => ?_
    obtain ⟨⟨hm, -, -, he⟩, hn⟩ := (hts x).1 hx
    have hx' := List.all_eq_true.1 hv x (Array.mem_toList_iff.2 hm)
    rw [he, bne_self_eq_false, Bool.false_or] at hx'
    obtain ⟨o, ho, hs⟩ := List.any_eq_true.1 hx'
    exact hn ⟨select_straddled, o, ho, hs⟩
  have ht : straddledDocument.tree.tokens.toList.any (fun x =>
      x.token.kind == .identifier && !x.token.isMissing && x.token.value == straddledName) =
        true := by decide +kernel
  obtain ⟨x, hx, hp⟩ := List.any_eq_true.1 ht
  simp only [Bool.and_eq_true, beq_iff_eq, Bool.not_eq_true'] at hp
  exact ⟨by rw [h, hnil], x, Array.mem_toList_iff.1 hx, hp.1.1, hp.1.2, hp.2⟩

end Xref.Query
