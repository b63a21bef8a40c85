import Xref.Proofs.Filter.Index
import Xref.Proofs.Identifier.Form
import Xref.Proofs.Search.Scan
import Xref.Proofs.Search.Walk

/-!
# Every way of looking for a name finds the same tokens

The index chooses among three ways to look for a name. It answers itself only for names that no
token has, and has the text scanned only when every token with the name is written as it is named,
because a filter never denies what was put into it. So skipping finds what the walk would have
found, and so does the scan, except for tokens straddled by an occurrence that it visits.

Straddling is impossible where every character has a key of one character. Then an occurrence is
itself a name, which would reach the token from the left; but tokens stand where no name does.
-/

namespace Xref

open Identifier

/-! ## Straddling -/

namespace Tree

variable {l : Language} {s : SourceText} {m : Comparison} {name : Text} {x : PlacedToken}

/-- The characters of an identifier token, if it is written as it is named, are a name. -/
theorem isName_text (hx : x ∈ (parse l s).tokens) (hm : x.token.matches m name = true)
    (hw : x.token.text = x.token.value) : IsName x.token.text := by
  obtain ⟨hk, hp, -⟩ := matches_iff.1 hm
  rcases stands_of_mem hx with ⟨hp', -⟩ | ⟨-, pre, -, hs⟩
  · rw [hp] at hp'
    cases hp'
  · obtain ⟨hne, hv | hv⟩ := hs.isName hk
    · exact absurd (hw.trans hv) hne
    · rw [hw]
      exact hv

theorem trailingRun_append {p u : Text} (hu : ∀ c ∈ u, isPart c = true) :
    trailingRun (p ++ u) = u.reverse ++ trailingRun p := by
  rw [trailingRun, List.reverse_append,
    List.takeWhile_append_of_pos fun c hc => hu c (List.mem_reverse.1 hc)]
  rfl

/-- A piece of a text that begins before a token and ends behind its beginning is cut in two, and
the second part begins like the token. -/
theorem exists_cut {pre v post p u r : Text} (h : p ++ u ++ r = pre ++ v ++ post)
    (hp : p.size < pre.size) (hu : pre.size < p.size + u.size) (hv : v ≠ []) :
    ∃ c u₁ d u₂ v', u = c :: u₁ ++ d :: u₂ ∧ pre = p ++ c :: u₁ ∧ v = d :: v' := by
  rw [List.append_assoc, List.append_assoc] at h
  obtain ⟨u₁, rfl, hu₁⟩ := Comparison.exists_append_of_size_le h.symm (Nat.le_of_lt hp)
  rw [Text.size_append] at hp hu
  obtain ⟨u₂, rfl, hu₂⟩ := Comparison.exists_append_of_size_le hu₁ (by omega)
  rw [Text.size_append] at hu
  have hne₁ : u₁ ≠ [] := by
    rintro rfl
    rw [Text.size_nil] at hp
    omega
  have hne₂ : u₂ ≠ [] := by
    rintro rfl
    rw [Text.size_nil] at hu
    omega
  obtain ⟨c, u₁, rfl⟩ := List.exists_cons_of_ne_nil hne₁
  obtain ⟨d, u₂, rfl⟩ := List.exists_cons_of_ne_nil hne₂
  obtain ⟨e, v, rfl⟩ := List.exists_cons_of_ne_nil hv
  obtain rfl : e = d := (List.cons.inj hu₂).1
  exact ⟨c, u₁, e, u₂, v, rfl, rfl, rfl⟩

theorem not_straddles (hl : m.KeepsLength s.chars) (hx : x ∈ (parse l s).tokens)
    (hm : x.token.matches m name = true) (hw : x.token.text = x.token.value)
    {p u : Text} {o : Occurrence} (ho : m.Occurs (m.key name) s.chars p u)
    (hp : p.size = o.start) (hu : u.size = o.size) : o.straddles x.token = false := by
  have hname := isName_text hx hm hw
  obtain ⟨-, hmiss, hkey⟩ := matches_iff.1 hm
  rcases stands_of_mem hx with ⟨hp', -⟩ | ⟨-, pre, hpre, hs⟩
  · rw [hmiss] at hp'
    cases hp'
  obtain ⟨post, hc, hfresh⟩ := hs.fresh
  have hc : s.chars = pre ++ x.token.text ++ post := hc
  have hfresh : Fresh pre (x.token.text ++ post) := hfresh
  rw [Bool.eq_false_iff]
  intro hst
  simp only [Occurrence.straddles, Bool.and_eq_true, decide_eq_true_eq] at hst
  obtain ⟨⟨r, hr⟩, hk⟩ := ho
  obtain ⟨c, u₁, d, u₂, v, rfl, rfl, hv⟩ := exists_cut (hr.symm.trans hc)
    (by omega) (by omega) (IsName.ne_nil hname)
  rw [hv] at hname hc hfresh
  rw [← hw, hv] at hkey
  have hin {y : Text} (hy : ∀ e ∈ y, e ∈ s.chars) : m.KeepsLength y := fun e he => hl e (hy e he)
  -- the occurrence is a name that begins before the token and reaches into it
  obtain ⟨hnu, hcd⟩ := Comparison.isName_of_key_eq (c := c) (u := u₁ ++ d :: u₂)
    (hin fun e he => by rw [hr]; exact List.mem_append_left _ (List.mem_append_right _ he))
    (hin fun e he => by rw [hc]; exact List.mem_append_left _ (List.mem_append_right _ he))
    (hk.trans hkey.symm) hname
  have hpart : ∀ e ∈ c :: u₁, isPart e = true := by
    intro e he
    rcases List.mem_cons.1 he with rfl | he
    · exact isPart_of_isStart hnu.1
    · exact hnu.2 e (List.mem_append_left _ he)
  have hrun : c ∈ trailingRun (p ++ c :: u₁) := by
    rw [trailingRun_append hpart]
    exact List.mem_append_left _ (List.mem_reverse.2 List.mem_cons_self)
  obtain ⟨hd, hcu⟩ := hfresh d rfl (isPart_of_isStart hname.1) c hrun hnu.1
  have hkeep : (m.key [c]).length = 1 :=
    hl c (by rw [hr]; exact List.mem_append_left _ (List.mem_append_right _ List.mem_cons_self))
  exact hcu ((Comparison.class_eq_of_key_eq hkeep hcd).2.2 hd)

/-- Where every character has a key of one character, the scan sees every matching token that is
written as it is named. -/
theorem isSeen_of_keepsLength (hl : m.KeepsLength s.chars) (hn : name ≠ [])
    (hx : x ∈ (parse l s).tokens) (hm : x.token.matches m name = true)
    (hw : x.token.text = x.token.value) : (parse l s).isSeen m name 0 x = true := by
  refine isSeen_iff.2 ⟨hm, Nat.zero_le _, ?_⟩
  have hv (start : Nat) : ∀ o ∈ (parse l s).visits m name start, o.straddles x.token = false := by
    induction start using visits.induct (parse l s) m name with
    | case1 start hf =>
        rw [visits_of_none hf]
        exact List.forall_mem_nil _
    | case2 start o hf ih =>
        rw [visits_of_some hf]
        refine List.forall_mem_cons.2 ⟨?_, ih⟩
        obtain ⟨⟨p, u, ho, hp, hu⟩, -⟩ := Comparison.find?_eq_some hn hf
        exact not_straddles hl hx hm hw ho hp hu
  exact hv 0

end Tree

/-! ## The strategies -/

namespace Strategy

/-- The tokens that a strategy finds: all that match, except that the scan misses those straddled
by an occurrence that it visits. -/
def finds (σ : Strategy) (t : Tree) (m : Comparison) (name : Text) (x : PlacedToken) : Bool :=
  match σ with
  | .textScan => t.isSeen m name 0 x
  | _ => x.token.matches m name

variable {l : Language} {s : SourceText} {name : Text}

/-- The strategy chosen by the index of a text finds what a walk finds, up to straddled tokens. -/
theorem run_select (f : Seeds) (rate : Float) (hn : name ≠ []) :
    let t := Tree.parse l s
    let σ := select (.build f t rate) name
    σ.run t (.ofLanguage l) name false =
      .ok (t.tokens.toList.filter (σ.finds t (.ofLanguage l) name)) := by
  intro t σ
  have hl : t.language = l := rfl
  have hs : σ = select (.build f t rate) name := rfl
  rw [select, if_neg hn] at hs
  by_cases he : (Index.build f t rate).mayHoldEscaped name = true
  · rw [if_pos he] at hs
    rw [hs]
    exact t.treeWalk_placedRoot _ hn
  · rw [if_neg he] at hs
    by_cases hm : (Index.build f t rate).mayHold name = true
    · rw [if_pos hm] at hs
      rw [hs]
      show t.textScan (.ofLanguage l) name false = _
      rw [Tree.textScan, if_neg hn]
      refine Tree.scanFrom_eq (Tree.standing_parse l s) hn (fun x hx hx' => ?_) ⟨[], _, rfl, rfl⟩
      by_cases hw : x.token.text = x.token.value
      · exact hw
      · exact absurd ((Index.knows_build f t rate).mayHoldEscaped hx (hl ▸ hx') hw) he
    · rw [if_neg hm] at hs
      rw [hs]
      refine congrArg Except.ok (List.filter_eq_nil_iff.2 fun x hx hx' => ?_).symm
      rw [Array.mem_toList_iff] at hx
      exact hm ((Index.knows_build f t rate).mayHold hx (hl ▸ hx'))

/-- Where every character has a key of one character, every strategy finds all that match. -/
theorem run_select_of_keepsLength (f : Seeds) (rate : Float) (hn : name ≠ [])
    (hk : (Comparison.ofLanguage l).KeepsLength s.chars) :
    let t := Tree.parse l s
    (select (.build f t rate) name).run t (.ofLanguage l) name false =
      .ok (t.tokens.toList.filter fun x => x.token.matches (.ofLanguage l) name) := by
  intro t
  rw [run_select f rate hn]
  refine congrArg Except.ok (List.filter_congr fun x hx => ?_)
  rw [Array.mem_toList_iff] at hx
  cases hs : select (.build f t rate) name with
  | skip => rfl
  | treeWalk => rfl
  | textScan =>
      rw [Bool.eq_iff_iff]
      refine ⟨fun h => (Tree.isSeen_iff.1 h).1, fun h => ?_⟩
      refine Tree.isSeen_of_keepsLength hk hn hx h ?_
      -- the scan was chosen, so the index denied an escape
      by_cases hw : x.token.text = x.token.value
      · exact hw
      · have he := (Index.knows_build f t rate).mayHoldEscaped hx h hw
        rw [select, if_neg hn, if_pos he] at hs
        cases hs

end Strategy

end Xref
