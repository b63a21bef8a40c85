import Xref.Search.Strategy
import Xref.Tree.Parse

/-!
# The index errs on one side only

An index may take a name for one that the tree has, but never one that the tree has for another
(`Index.one_sided`). So a search is never skipped that would have found something, and the text is
never scanned for a name that occurs with an escape.

Nothing rests on the size of the filters, on the seeds, or on the order in which the names are put
in. All that is needed is that every name has been put in, in the form that its spellings share
(`Index.Knows`): then whoever asks for one of the spellings asks for what has been put in.
-/

namespace Xref

/-- Names are put in normal form as they are compared. -/
theorem Language.normalize_eq_key (l : Language) (name : Text) :
    l.normalize name = (Comparison.ofLanguage l).key name := by
  cases l <;> rfl

namespace Index

/-- Every name of the tree has been put into the filters, whatever these were before and whatever
else has been put in. -/
structure Knows (i : Index) (t : Tree) : Prop where
  language : i.language = t.language
  names : ∃ b ss, i.names = Bloom.insertAll i.seeds b ss ∧ namesOf t ⊆ ss
  escaped : ∃ b ss, i.escaped = Bloom.insertAll i.seeds b ss ∧ escapedOf t ⊆ ss
  escapedCount : escapedOf t ≠ [] → 0 < i.escapedCount

variable {i : Index} {t : Tree} {name : Text} {x : PlacedToken}

theorem knows_build (f : Seeds) (t : Tree) (rate : Float) : (build f t rate).Knows t where
  language := rfl
  names := ⟨_, _, rfl, fun _ h => Text.mem_distinct.2 h⟩
  escaped := ⟨_, _, rfl, fun _ h => Text.mem_distinct.2 h⟩
  escapedCount h := by
    obtain ⟨s, hs⟩ := List.exists_mem_of_ne_nil _ h
    exact List.length_pos_of_mem (Text.mem_distinct.2 hs)

namespace Knows

/-- A name is asked for in the form in which its spellings have been put in. -/
theorem normalize_eq (hi : i.Knows t) (hm : x.token.matches (.ofLanguage t.language) name = true) :
    i.language.normalize name = t.language.normalize x.token.value := by
  have hk := Comparison.equal_iff_key_eq.1 (Bool.and_eq_true_iff.1 hm).2
  rw [hi.language, Language.normalize_eq_key, Language.normalize_eq_key, hk]

theorem mayHold (hi : i.Knows t) (hx : x ∈ t.tokens)
    (hm : x.token.matches (.ofLanguage t.language) name = true) : i.mayHold name = true := by
  obtain ⟨b, ss, hb, hss⟩ := hi.names
  have hn : x.token.isIdentifier = true := (Bool.and_eq_true_iff.1 hm).1
  rw [Index.mayHold, hb, hi.normalize_eq hm]
  refine Bloom.mem_insertAll (hss (List.mem_map_of_mem ?_))
  exact List.mem_filter.2 ⟨Array.mem_toList_iff.2 hx, hn⟩

theorem mayHoldEscaped (hi : i.Knows t) (hx : x ∈ t.tokens)
    (hm : x.token.matches (.ofLanguage t.language) name = true)
    (hw : x.token.text ≠ x.token.value) : i.mayHoldEscaped name = true := by
  obtain ⟨b, ss, hb, hss⟩ := hi.escaped
  have hn : x.token.isIdentifier = true := (Bool.and_eq_true_iff.1 hm).1
  have hmem : t.language.normalize x.token.value ∈ escapedOf t := by
    refine List.mem_map_of_mem (List.mem_filter.2 ⟨Array.mem_toList_iff.2 hx, ?_⟩)
    rw [hn, Bool.true_and]
    exact bne_iff_ne.2 hw
  refine Bool.and_eq_true_iff.2 ⟨decide_eq_true (hi.escapedCount (List.ne_nil_of_mem hmem)), ?_⟩
  rw [hb, hi.normalize_eq hm]
  exact Bloom.mem_insertAll (hss hmem)

/-- Tokens that match are looked for. -/
theorem select_ne_skip (hi : i.Knows t) (hn : name ≠ []) (hx : x ∈ t.tokens)
    (hm : x.token.matches (.ofLanguage t.language) name = true) :
    Strategy.select i name ≠ .skip := by
  rw [Strategy.select, if_neg hn, hi.mayHold hx hm, if_pos rfl]
  split <;> exact nofun

/-- Tokens that match and are escaped are looked for in the tree. -/
theorem select_eq_treeWalk (hi : i.Knows t) (hn : name ≠ []) (hx : x ∈ t.tokens)
    (hm : x.token.matches (.ofLanguage t.language) name = true)
    (hw : x.token.text ≠ x.token.value) : Strategy.select i name = .treeWalk := by
  rw [Strategy.select, if_neg hn, if_pos (hi.mayHoldEscaped hx hm hw)]

end Knows

/-- The index of a tree knows the names of the tree; an index that knows them denies none of them
and has the tree walked for those that occur with an escape; and whatever a filter is asked or
given, it stays in its words. -/
theorem one_sided (f : Seeds) (t : Tree) (rate : Float) :
    (build f t rate).Knows t ∧
      (∀ i : Index, i.Knows t → ∀ x ∈ t.tokens, x.token.isIdentifier = true → ∀ name, name ≠ [] →
        (Comparison.ofLanguage t.language).equal x.token.value name = true →
          i.mayHold name = true ∧ Strategy.select i name ≠ .skip ∧
            (x.token.text ≠ x.token.value →
              i.mayHoldEscaped name = true ∧ Strategy.select i name = .treeWalk)) ∧
      ∀ (b : Bloom) (seeds : UInt64 × UInt64) (n : Nat),
        Bloom.bitIndex b.bits.size seeds n < b.bits.size ∧
          Bloom.bitIndex b.bits.size seeds n / 64 < b.bits.words.size := by
  refine ⟨knows_build f t rate, fun i hi x hx hid name hn he => ?_, fun b seeds n => ?_⟩
  · have hm : x.token.matches (.ofLanguage t.language) name = true :=
      Bool.and_eq_true_iff.2 ⟨hid, he⟩
    refine ⟨hi.mayHold hx hm, hi.select_ne_skip hn hx hm, fun hw => ?_⟩
    exact ⟨hi.mayHoldEscaped hx hm hw, hi.select_eq_treeWalk hn hx hm hw⟩
  · have h := Bloom.bitIndex_lt b.bits_pos seeds n
    exact ⟨h, BitArray.word_lt h⟩

theorem one_sided_of_escaped :
    let t := Tree.parse .csharp (.ofText "@class C; C D".toList 0)
    let i := build .standard t defaultRate
    Strategy.select i "class".toList = .treeWalk ∧ Strategy.select i "C".toList ≠ .skip := by
  intro t i
  have hs (name : Text) (hn : name ≠ []) := fun x hx hi he =>
    (one_sided .standard t defaultRate).2.1 i (knows_build _ _ _) x hx hi name hn he
  have h : (t.tokens.toList.any fun x => x.token.isIdentifier &&
      (Comparison.ofLanguage .csharp).equal x.token.value "class".toList &&
        x.token.text != x.token.value) = true := by
    decide +kernel
  have h' : (t.tokens.toList.any fun x => x.token.isIdentifier &&
      (Comparison.ofLanguage .csharp).equal x.token.value "C".toList) = true := by
    decide +kernel
  obtain ⟨x, hx, hb⟩ := List.any_eq_true.1 h
  obtain ⟨y, hy, hb'⟩ := List.any_eq_true.1 h'
  simp only [Bool.and_eq_true, bne_iff_ne] at hb hb'
  rw [Array.mem_toList_iff] at hx hy
  refine ⟨?_, (hs _ (by decide) y hy hb'.1 hb'.2).2.1⟩
  exact ((hs _ (by decide) x hx hb.1.1 hb.1.2).2.2 hb.2).2

end Index

end Xref
