import Xref.Proofs.Identifier.Occurrence
import Xref.Proofs.Text.Bytes

/-!
# The search for a name meets its specification

A name stands where a piece of the text equals it under the comparison. The search answers with the
first place at or after an offset where the name stands, and with the bytes of the piece, which the
place alone decides. It answers nothing if the name is empty, if the offset cuts no text, or if the
name does not stand from the offset on (`Comparison.find?_spec`).

Names that compare character by character may as well be looked for among the bytes of the text,
where an occurrence need not begin at a character: it does so by itself
(`Comparison.stands_ordinal_iff`).
-/

namespace Xref.Comparison

variable {m : Comparison} {name s : Text} {n : Nat} {o : Occurrence}

/-- A piece of the text that equals the name lies where the occurrence says. -/
def Stands (m : Comparison) (name s : Text) (o : Occurrence) : Prop :=
  ∃ p u r, s = p ++ u ++ r ∧ m.equal u name = true ∧ p.size = o.start ∧ u.size = o.size

theorem stands_iff_occurs :
    m.Stands name s o ↔
      ∃ p u, m.Occurs (m.key name) s p u ∧ p.size = o.start ∧ u.size = o.size := by
  constructor
  · rintro ⟨p, u, r, hs, hu, hp, hz⟩
    exact ⟨p, u, ⟨⟨r, hs⟩, equal_iff_key_eq.1 hu⟩, hp, hz⟩
  · rintro ⟨p, u, ⟨⟨r, hs⟩, hu⟩, hp, hz⟩
    exact ⟨p, u, r, hs, equal_iff_key_eq.2 hu, hp, hz⟩

/-- The pieces behind a place of which the name is one have the bytes of one another. -/
theorem Stands.eq_of_start_eq {o' : Occurrence} (h : m.Stands name s o) (h' : m.Stands name s o')
    (hs : o.start = o'.start) : o = o' := by
  obtain ⟨p, u, r, hs₁, hu, hp, hz⟩ := h
  obtain ⟨q, v, t, hs₂, hv, hq, hz'⟩ := h'
  have hc : p ++ (u ++ r) = q ++ (v ++ t) := by
    rw [← List.append_assoc, ← hs₁, hs₂, List.append_assoc]
  obtain ⟨x, hx, hr⟩ := exists_append_of_size_le hc (by omega)
  have hxe : x = [] := by
    rw [hx, Text.size_append] at hp
    exact Text.size_eq_zero.1 (by omega)
  rw [hxe, List.nil_append] at hr
  have hk : m.key u = m.key v := (equal_iff_key_eq.1 hu).trans (equal_iff_key_eq.1 hv).symm
  have := size_eq_of_key_eq hr.symm hk
  cases o
  cases o'
  simp only [Occurrence.mk.injEq] at hs hz hz' ⊢
  omega

/-- A name that compares character by character stands where its bytes stand. -/
theorem stands_ordinal_iff (hn : name ≠ []) :
    ordinal.Stands name s o ↔ o.size = name.size ∧ name.bytes <+: s.bytes.drop o.start := by
  rw [Text.bytes_prefix_drop_iff hn]
  constructor
  · rintro ⟨p, u, r, hs, hu, hp, hz⟩
    obtain rfl : u = name := equal_iff_key_eq.1 hu
    exact ⟨hz.symm, p, r, hs, hp⟩
  · rintro ⟨hz, p, r, hs, hp⟩
    exact ⟨p, name, r, hs, equal_iff_key_eq.2 rfl, hp, hz.symm⟩

/-- A search that finds something began between two characters. -/
theorem cut_of_find? (h : m.find? name s n = some o) : ∃ q r, s = q ++ r ∧ q.size = n := by
  rw [find?] at h
  split at h
  · cases h
  · next r hr =>
      obtain ⟨q, hq, hz⟩ := Text.dropBytes?_eq_some_iff.1 hr
      exact ⟨q, r, hq, hz⟩

theorem find?_nil (m : Comparison) (s : Text) (n : Nat) : m.find? [] s n = none := by
  rw [find?]
  split
  · rfl
  · exact if_pos rfl

/-- The occurrence is the first at or after an offset that lies between two characters. -/
structure First (m : Comparison) (name s : Text) (n : Nat) (o : Occurrence) : Prop where
  ne_nil : name ≠ []
  cut : ∃ q r, s = q ++ r ∧ q.size = n
  le_start : n ≤ o.start
  stands : m.Stands name s o
  le_of_stands : ∀ o', m.Stands name s o' → n ≤ o'.start → o.start ≤ o'.start

theorem first_of_find? (h : m.find? name s n = some o) : m.First name s n o := by
  have hn : name ≠ [] := by
    rintro rfl
    rw [find?_nil] at h
    cases h
  obtain ⟨ho, hmin⟩ := find?_eq_some hn h
  refine ⟨hn, cut_of_find? h, (find?_bounds h).1, stands_iff_occurs.2 ho, fun o' ho' hle => ?_⟩
  obtain ⟨p, u, hu, hp, -⟩ := stands_iff_occurs.1 ho'
  rw [← hp] at hle ⊢
  exact hmin p u hu hle

theorem lt_of_find?_eq_none (hn : name ≠ []) (hc : ∃ q r, s = q ++ r ∧ q.size = n)
    (h : m.find? name s n = none) (ho : m.Stands name s o) : o.start < n := by
  obtain ⟨p, u, hu, hp, -⟩ := stands_iff_occurs.1 ho
  rw [← hp]
  exact find?_eq_none hn h hc hu

theorem First.find? (h : m.First name s n o) : m.find? name s n = some o := by
  cases hf : m.find? name s n with
  | none =>
      have := lt_of_find?_eq_none h.ne_nil h.cut hf h.stands
      exact absurd h.le_start (by omega)
  | some o' =>
      have h' := first_of_find? hf
      have h₁ := h.le_of_stands o' h'.stands h'.le_start
      have h₂ := h'.le_of_stands o h.stands h.le_start
      rw [h'.stands.eq_of_start_eq h.stands (Nat.le_antisymm h₂ h₁)]

/-- The search answers with the first occurrence at or after the offset, and with nothing exactly
if the name is empty, the offset cuts no text, or the name does not stand from there on. The piece
that stands at a place is the only one there. For names that compare character by character the
search is a search for the first occurrence of their bytes. -/
theorem find?_spec (m : Comparison) (name s : Text) (n : Nat) :
    (∀ o, m.find? name s n = some o ↔ m.First name s n o) ∧
      (m.find? name s n = none ↔
        name = [] ∨ (¬ ∃ q r, s = q ++ r ∧ q.size = n) ∨ ∀ o, m.Stands name s o → o.start < n) ∧
      (∀ p u r v t, s = p ++ u ++ r → s = p ++ v ++ t → m.equal u name = true →
        m.equal v name = true → u = v) ∧
      (m = ordinal → name ≠ [] → ∀ o, m.Stands name s o ↔
        o.size = name.size ∧ name.bytes <+: s.bytes.drop o.start) := by
  refine ⟨fun o => ⟨first_of_find?, First.find?⟩, ⟨fun h => ?_, fun h => ?_⟩, ?_, ?_⟩
  · by_cases hn : name = []
    · exact .inl hn
    by_cases hc : ∃ q r, s = q ++ r ∧ q.size = n
    · exact .inr (.inr fun o => lt_of_find?_eq_none hn hc h)
    · exact .inr (.inl hc)
  · cases hf : m.find? name s n with
    | none => rfl
    | some o =>
        have ho := first_of_find? hf
        rcases h with hn | hc | hlt
        · exact absurd hn ho.ne_nil
        · exact absurd ho.cut hc
        · exact absurd (hlt o ho.stands) (Nat.not_lt.2 ho.le_start)
  · intro p u r v t hu hv hku hkv
    have hc : u ++ r = v ++ t := by
      rw [hu, List.append_assoc, List.append_assoc] at hv
      exact List.append_cancel_left hv
    have hk : m.key u = m.key v := (equal_iff_key_eq.1 hku).trans (equal_iff_key_eq.1 hkv).symm
    have hz := size_eq_of_key_eq hc hk
    obtain ⟨x, hx, -⟩ := exists_append_of_size_le hc (by omega)
    rw [hx, Text.size_append] at hz
    rw [hx, Text.size_eq_zero.1 (by omega : x.size = 0), List.append_nil]
  · rintro rfl hn o
    exact stands_ordinal_iff hn

-- the Kelvin sign folds to a letter of one byte and takes three itself
example : ignoreCase.find? ['k', 'b'] ['a', ' ', '\u212A', 'B'] 0 = some ⟨2, 4⟩ := by
  decide +kernel

end Xref.Comparison
