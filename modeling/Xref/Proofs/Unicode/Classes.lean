import Xref.Identifier.Basic
import Xref.Lexeme.Gap

/-!
# How the classes of characters fit together

Three facts about the tables that the lexical rules rest on without saying so: a blank never
continues a name, folding a character to one character keeps whether it begins or continues a name,
and nothing but the underscore folds to the underscore. Each is a fact about ranges, read off the
tables range by range and carried over to characters.
-/

namespace Xref.Unicode

open Identifier

namespace Ranges

/-- No range of the one meets a range of the other. -/
def apart (rs qs : Ranges) : Bool :=
  rs.all fun r => qs.all fun q => Nat.blt r.2 q.1 || Nat.blt q.2 r.1

theorem holds_of_apart {rs qs : Ranges} {n : Nat} (h : rs.apart qs = true)
    (hn : rs.holds n = true) : qs.holds n = false := by
  obtain ⟨r, hr, hl, hu⟩ := (rs.holds_iff n).1 hn
  rw [Bool.eq_false_iff]
  intro hq
  obtain ⟨q, hq, hl', hu'⟩ := (qs.holds_iff n).1 hq
  have ha := List.all_eq_true.1 (List.all_eq_true.1 h r hr) q hq
  simp only [Bool.or_eq_true, Nat.blt_eq] at ha
  omega

/-- One of the ranges holds every code point from `a` to `b`. -/
def covers (rs : Ranges) (a b : Nat) : Bool :=
  rs.any fun r => Nat.ble r.1 a && Nat.ble b r.2

theorem holds_of_covers {rs : Ranges} {a b n : Nat} (h : rs.covers a b = true) (ha : a ≤ n)
    (hb : n ≤ b) : rs.holds n = true := by
  obtain ⟨r, hr, hc⟩ := List.any_eq_true.1 h
  simp only [Bool.and_eq_true, Nat.ble_eq] at hc
  exact (rs.holds_iff n).2 ⟨r, hr, Nat.le_trans hc.1 ha, Nat.le_trans hb hc.2⟩

end Ranges

/-! ## Blanks -/

/-- The code points of blanks beyond ASCII. -/
def blankRanges : Ranges :=
  (0xFEFF, 0xFEFF) :: whiteSpaceRanges.filter fun r => 0x80 ≤ r.1

theorem apart_alphabeticRanges : blankRanges.apart alphabeticRanges = true := by
  decide +kernel

theorem apart_numericRanges : blankRanges.apart numericRanges = true := by
  decide +kernel

theorem isPart_of_isLineBreak {c : Char} (h : isLineBreak c = true) : isPart c = false := by
  simp only [isLineBreak, Bool.or_eq_true, beq_iff_eq] at h
  rcases h with rfl | rfl <;> rfl

theorem isPart_of_isBlank {c : Char} (h : Gap.isBlank c = true) : isPart c = false := by
  by_cases ha : c.toNat < 128
  · have hall : ∀ n < 128, Gap.isBlank (Char.ofNat n) = true → isPart (Char.ofNat n) = false := by
      decide +kernel
    rw [← Char.ofNat_toNat c] at h ⊢
    exact hall c.toNat ha h
  · have hb : blankRanges.holds c.toNat = true := by
      obtain ⟨-, h⟩ := Bool.and_eq_true_iff.1 h
      rcases Bool.or_eq_true_iff.1 h with h | h
      · obtain ⟨r, hr, hl, hu⟩ := (Ranges.holds_iff _ _).1 h
        refine (Ranges.holds_iff _ _).2 ⟨r, List.mem_cons_of_mem _ (List.mem_filter.2 ⟨hr, ?_⟩),
          hl, hu⟩
        -- a range that reaches beyond ASCII begins there
        have hall : ∀ r ∈ whiteSpaceRanges, 128 ≤ r.2 → 128 ≤ r.1 := by decide
        exact decide_eq_true (hall r hr (by omega))
      · obtain rfl := beq_iff_eq.1 h
        rfl
    have hu : c ≠ '_' := by
      rintro rfl
      exact ha (by decide)
    rw [isPart, isAlphanumeric, isAlphabetic, isNumeric, if_neg ha, if_neg ha,
      Ranges.holds_of_apart apart_alphabeticRanges hb,
      Ranges.holds_of_apart apart_numericRanges hb]
    simpa using hu

/-! ## Folding -/

/-- The characters of a run and those they map to are alphabetic: as whole ranges, or else one by
one. -/
def CaseRun.isAlphabetic (r : CaseRun) : Bool :=
  let stop := r.target + (r.last - r.first)
  (Nat.ble 0x80 r.first && Nat.ble 0x80 r.target && alphabeticRanges.covers r.first r.last &&
      alphabeticRanges.covers r.target stop &&
      (Nat.blt stop 0xD800 || (Nat.blt 0xDFFF r.target && Nat.blt stop 0x110000))) ||
    (List.range (r.last - r.first + 1)).all fun k =>
      k % r.step != 0 || (Unicode.isAlphabetic (Char.ofNat (r.first + k)) &&
        Unicode.isAlphabetic (Char.ofNat (r.target + k)))

theorem isAlphabetic_lowercaseRuns : lowercaseRuns.all CaseRun.isAlphabetic = true := by
  decide +kernel

theorem isAlphabetic_of_covers {a b : Nat} {c : Char} (h : alphabeticRanges.covers a b = true)
    (h₀ : 0x80 ≤ a) (ha : a ≤ c.toNat) (hb : c.toNat ≤ b) : isAlphabetic c = true := by
  rw [isAlphabetic, if_neg (by omega)]
  exact Ranges.holds_of_covers h ha hb

theorem toNat_ofNat {n : Nat} (h : n < 0xD800 ∨ 0xDFFF < n ∧ n < 0x110000) :
    (Char.ofNat n).toNat = n := by
  have hv : n.isValidChar := h
  rw [Char.ofNat, dif_pos hv]
  rfl

/-- A character that a run maps is alphabetic, and so is what it is mapped to. -/
theorem CaseRun.isAlphabetic_map {r : CaseRun} (hr : r.isAlphabetic = true) {c : Char} {n : Nat}
    (h : r.map? c.toNat = some n) :
    Unicode.isAlphabetic c = true ∧ Unicode.isAlphabetic (Char.ofNat n) = true := by
  unfold map? at h
  split at h
  · next hc =>
      obtain rfl := Option.some.inj h
      simp only [Bool.and_eq_true, decide_eq_true_eq, beq_iff_eq] at hc
      obtain ⟨⟨hl, hu⟩, hs⟩ := hc
      unfold isAlphabetic at hr
      rcases Bool.or_eq_true_iff.1 hr with hr | hr
      · simp only [Bool.and_eq_true, Bool.or_eq_true, Nat.ble_eq, Nat.blt_eq] at hr
        obtain ⟨⟨⟨⟨h₀, h₁⟩, hf⟩, ht⟩, hv⟩ := hr
        have hn : (Char.ofNat (r.target + (c.toNat - r.first))).toNat =
            r.target + (c.toNat - r.first) := toNat_ofNat (by omega)
        exact ⟨isAlphabetic_of_covers hf h₀ hl hu,
          isAlphabetic_of_covers ht h₁ (by omega) (by omega)⟩
      · have ha := List.all_eq_true.1 hr (c.toNat - r.first) (List.mem_range.2 (by omega))
        rw [Nat.add_sub_cancel' hl, Char.ofNat_toNat, hs] at ha
        simpa using ha
  · cases h

/-- A character that folds to one other character is alphabetic, and so is the other. -/
theorem lowercase_cases {c e : Char} (h : lowercase c = [e]) :
    e = c ∨ (isAlphabetic c = true ∧ isAlphabetic e = true) := by
  unfold lowercase at h
  split at h
  · next ha =>
      have hall : ∀ n < 128, (Char.ofNat n).toLower = Char.ofNat n ∨
          (isAlphabetic (Char.ofNat n) = true ∧
            isAlphabetic (Char.ofNat n).toLower = true) := by
        decide
      have := hall c.toNat ha
      rw [Char.ofNat_toNat] at this
      rwa [(List.cons.inj h).1] at this
  · split at h
    · cases h
    · split at h
      · next n hn =>
          obtain ⟨r, hr, hm⟩ := List.exists_of_findSome?_eq_some hn
          have := CaseRun.isAlphabetic_map (List.all_eq_true.1 isAlphabetic_lowercaseRuns r hr) hm
          rw [(List.cons.inj h).1] at this
          exact .inr this
      · exact .inl (List.cons.inj h).1.symm

theorem isStart_of_lowercase {c e : Char} (h : lowercase c = [e]) : isStart e = isStart c := by
  rcases lowercase_cases h with rfl | ⟨hc, he⟩
  · rfl
  · rw [isStart, isStart, hc, he, Bool.or_true, Bool.or_true]

theorem isPart_of_lowercase {c e : Char} (h : lowercase c = [e]) : isPart e = isPart c := by
  rcases lowercase_cases h with rfl | ⟨hc, he⟩
  · rfl
  · rw [isPart, isPart, isAlphanumeric_of_isAlphabetic hc, isAlphanumeric_of_isAlphabetic he,
      Bool.or_true, Bool.or_true]

theorem eq_underscore_of_lowercase {c : Char} (h : lowercase c = ['_']) : c = '_' := by
  rcases lowercase_cases h with h | ⟨-, h⟩
  · exact h.symm
  · cases h

end Xref.Unicode
