/-!
# Binary search for a boundary

`partitionPoint p xs` halves the array until it stands where `p` stops holding. When `p` holds on
an initial part of the array and nowhere after it, that is the length of this part
(`partitionPoint_eq`); lines by start and tokens by start are looked up this way.
-/

namespace Xref

/-- The index where `p` stops holding, among the indices from `lo` to `hi`. -/
def partitionBetween {α : Type} (p : α → Bool) (xs : Array α) (lo hi : Nat) (h : hi ≤ xs.size) :
    Nat :=
  if hlt : lo < hi then
    have hm : (lo + hi) / 2 < xs.size := by omega
    if p xs[(lo + hi) / 2] then partitionBetween p xs ((lo + hi) / 2 + 1) hi h
    else partitionBetween p xs lo ((lo + hi) / 2) (by omega)
  else lo
termination_by hi - lo

/-- The index where `p` stops holding. -/
def partitionPoint {α : Type} (p : α → Bool) (xs : Array α) : Nat :=
  partitionBetween p xs 0 xs.size (Nat.le_refl _)

/-- Halving keeps the boundary between its bounds. -/
theorem partitionBetween_eq {α : Type} {p : α → Bool} {xs : Array α} {n : Nat}
    (hp : ∀ i (hi : i < xs.size), p xs[i] = true ↔ i < n) {lo hi : Nat} (h : hi ≤ xs.size)
    (hlo : lo ≤ n) (hhi : n ≤ hi) : partitionBetween p xs lo hi h = n := by
  induction lo, hi, h using partitionBetween.induct p xs with
  | case1 lo hi h hlt hm hpm ih =>
    rw [partitionBetween, dif_pos hlt]
    simp only [hpm, if_true]
    exact ih (by have := (hp _ hm).1 hpm; omega) hhi
  | case2 lo hi h hlt hm hpm ih =>
    rw [partitionBetween, dif_pos hlt]
    simp only [hpm, Bool.false_eq_true, if_false]
    exact ih hlo (by have := mt (hp _ hm).2 hpm; omega)
  | case3 lo hi h hlt =>
    rw [partitionBetween, dif_neg hlt]
    omega

/-- The boundary is found whenever there is one. -/
theorem partitionPoint_eq {α : Type} {p : α → Bool} {xs : Array α} {n : Nat} (hn : n ≤ xs.size)
    (hp : ∀ i (hi : i < xs.size), p xs[i] = true ↔ i < n) : partitionPoint p xs = n :=
  partitionBetween_eq hp (Nat.le_refl _) (Nat.zero_le _) hn

end Xref
