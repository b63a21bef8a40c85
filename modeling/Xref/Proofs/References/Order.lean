import Xref.References.Location

/-!
# Locations in document order

Locations are sorted and then every one that starts where the one before it does is dropped. What
is left starts strictly later each time (`Location.pairwise_inOrder`). It has the same members if
locations that start together are the same (`Location.mem_inOrder`); the locations of the tokens of
a tree are such, since each refers in one way only.
-/

namespace Xref.Location

variable {a x : Location} {ls : List Location}

/-! ## Sorting -/

theorem notAfter_trans (a b c : Location) (hab : notAfter a b = true)
    (hbc : notAfter b c = true) : notAfter a c = true := by
  simp only [notAfter, Bool.or_eq_true, Bool.and_eq_true, decide_eq_true_eq, beq_iff_eq]
    at hab hbc ⊢
  omega

theorem notAfter_total (a b : Location) : (notAfter a b || notAfter b a) = true := by
  simp only [notAfter, Bool.or_eq_true, Bool.and_eq_true, decide_eq_true_eq, beq_iff_eq]
  omega

theorem start_le_of_notAfter {a b : Location} (h : notAfter a b = true) :
    a.span.start ≤ b.span.start := by
  simp only [notAfter, Bool.or_eq_true, Bool.and_eq_true, decide_eq_true_eq, beq_iff_eq] at h
  omega

theorem pairwise_mergeSort_start (ls : List Location) :
    (ls.mergeSort notAfter).Pairwise fun a b => a.span.start ≤ b.span.start :=
  (List.pairwise_mergeSort notAfter_trans notAfter_total ls).imp start_le_of_notAfter

/-! ## Dropping repeats -/

theorem pairwise_go (h : (a :: ls).Pairwise fun p q => p.span.start ≤ q.span.start) :
    (a :: dropRepeats.go a ls).Pairwise fun p q => p.span.start < q.span.start := by
  induction ls generalizing a with
  | nil => exact List.pairwise_singleton _ a
  | cons b r ih =>
      obtain ⟨ha, hr⟩ := List.pairwise_cons.1 h
      have hab := ha b List.mem_cons_self
      rw [dropRepeats.go]
      split
      · refine ih (.cons (fun c hc => ha c (List.mem_cons_of_mem _ hc)) ?_)
        exact (List.pairwise_cons.1 hr).2
      · next hne =>
          have hb := ih hr
          refine .cons (fun c hc => ?_) hb
          rcases List.mem_cons.1 hc with rfl | hc
          · omega
          · have := (List.pairwise_cons.1 hb).1 c hc
            omega

theorem mem_go (h : ∀ p ∈ a :: ls, ∀ q ∈ a :: ls, p.span.start = q.span.start → p = q) :
    x ∈ a :: dropRepeats.go a ls ↔ x ∈ a :: ls := by
  induction ls generalizing a with
  | nil => exact Iff.rfl
  | cons b r ih =>
      have htail {c : Location} (hc : c ∈ a :: b :: r) :
          ∀ p ∈ c :: r, ∀ q ∈ c :: r, p.span.start = q.span.start → p = q := by
        intro p hp q hq
        have hin {y : Location} (hy : y ∈ c :: r) : y ∈ a :: b :: r := by
          rcases List.mem_cons.1 hy with rfl | hy
          · exact hc
          · exact List.mem_cons_of_mem _ (List.mem_cons_of_mem _ hy)
        exact h p (hin hp) q (hin hq)
      rw [dropRepeats.go]
      split
      · next hs =>
          have hb : b ∈ a :: b :: r := List.mem_cons_of_mem _ List.mem_cons_self
          obtain rfl := h b hb a List.mem_cons_self hs
          rw [ih (htail hb), List.mem_cons (b := b) (l := b :: r)]
          exact ⟨.inr, fun hx => hx.elim (fun he => he ▸ List.mem_cons_self) id⟩
      · rw [List.mem_cons, ih (htail (List.mem_cons_of_mem _ List.mem_cons_self)),
          List.mem_cons (a := x) (b := a)]

theorem mem_of_mem_go (h : x ∈ dropRepeats.go a ls) : x ∈ ls := by
  induction ls generalizing a with
  | nil => cases h
  | cons b r ih =>
      rw [dropRepeats.go] at h
      split at h
      · exact List.mem_cons_of_mem _ (ih h)
      · rcases List.mem_cons.1 h with rfl | h
        · exact List.mem_cons_self
        · exact List.mem_cons_of_mem _ (ih h)

/-! ## In order -/

theorem pairwise_inOrder (ls : List Location) :
    (inOrder ls).Pairwise fun p q => p.span.start < q.span.start := by
  have hs := pairwise_mergeSort_start ls
  rw [inOrder]
  cases hm : ls.mergeSort notAfter with
  | nil => exact .nil
  | cons a r =>
      rw [hm] at hs
      exact pairwise_go hs

theorem mem_of_mem_inOrder (h : x ∈ inOrder ls) : x ∈ ls := by
  rw [inOrder] at h
  refine List.mem_mergeSort.1 (show x ∈ ls.mergeSort notAfter from ?_)
  cases hs : ls.mergeSort notAfter with
  | nil =>
      rw [hs] at h
      cases h
  | cons a r =>
      rw [hs] at h
      rcases List.mem_cons.1 h with rfl | h
      · exact List.mem_cons_self
      · exact List.mem_cons_of_mem _ (mem_of_mem_go h)

/-- Nothing is lost if locations that start together are the same. -/
theorem mem_inOrder (h : ∀ p ∈ ls, ∀ q ∈ ls, p.span.start = q.span.start → p = q) :
    x ∈ inOrder ls ↔ x ∈ ls := by
  have hm {y : Location} : y ∈ ls.mergeSort notAfter ↔ y ∈ ls := List.mem_mergeSort
  rw [← hm, inOrder]
  cases hs : ls.mergeSort notAfter with
  | nil => exact Iff.rfl
  | cons a r =>
      refine mem_go fun p hp q hq => ?_
      rw [← hs] at hp hq
      exact h p (hm.1 hp) q (hm.1 hq)

end Xref.Location
