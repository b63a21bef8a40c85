/-!
# Bits in words

An array of bits is kept in words of 64 bits, the lowest bit of a word first. The number of bits
need not be a multiple of 64, and the last word then has bits to spare.

A bit is read and set through the word that holds it, under a mask with this bit only. `isSet` tells
of every bit whether it is set, by position and without a word; reading asks no more than that
(`get_eq`), and setting a bit changes nothing else (`isSet_set`).
-/

namespace Xref

/-- So many bits, in as many words as they need. -/
structure BitArray where
  words : Array UInt64
  size : Nat
  size_words : words.size = (size + 63) / 64

namespace BitArray

/-- So many bits, none of them set. -/
def zeros (n : Nat) : BitArray :=
  ⟨Array.replicate ((n + 63) / 64) 0, n, Array.size_replicate⟩

variable {b : BitArray} {i j : Nat}

/-- The word of every bit is there. -/
theorem word_lt (h : i < b.size) : i / 64 < b.words.size := by
  rw [b.size_words]
  omega

/-- The word in which one bit is set. -/
def mask (i : Nat) : UInt64 :=
  1 <<< UInt64.ofNat (i % 64)

/-- Reads a bit. -/
def get (b : BitArray) (i : Nat) (h : i < b.size) : Bool :=
  have := word_lt h
  b.words[i / 64] &&& mask i != 0

/-- Sets a bit. -/
def set (b : BitArray) (i : Nat) (h : i < b.size) : BitArray :=
  have hw := word_lt h
  { b with
    words := b.words.set (i / 64) (b.words[i / 64] ||| mask i) hw
    size_words := by rw [Array.size_set, b.size_words] }

/-- The bit is set. -/
def isSet (b : BitArray) (i : Nat) : Bool :=
  b.words[i / 64]?.any fun w => w.toNat.testBit (i % 64)

@[simp] theorem size_zeros (n : Nat) : (zeros n).size = n := rfl

@[simp] theorem size_set (h : i < b.size) : (b.set i h).size = b.size := rfl

/-- The mask of a bit has this bit only. -/
theorem testBit_mask (i k : Nat) : (mask i).toNat.testBit k = decide (i % 64 = k) := by
  have hi : i % 64 < 64 := Nat.mod_lt _ (by decide)
  have hp : 2 ^ (i % 64) < 2 ^ 64 := Nat.pow_lt_pow_right (by decide) hi
  have ho : (UInt64.ofNat (i % 64)).toNat = i % 64 :=
    UInt64.toNat_ofNat_of_lt' (Nat.lt_trans hi (by decide))
  have hm : (mask i).toNat = 2 ^ (i % 64) := by
    rw [mask, UInt64.toNat_shiftLeft, ho, Nat.mod_mod]
    show 1 <<< (i % 64) % 2 ^ 64 = _
    rw [Nat.shiftLeft_eq, Nat.one_mul, Nat.mod_eq_of_lt hp]
  rw [hm, Nat.testBit_two_pow]

/-- A word meets a mask if it has the bit of the mask. -/
theorem and_mask_eq_zero {w : UInt64} : w &&& mask i = 0 ↔ w.toNat.testBit (i % 64) = false := by
  rw [← UInt64.toNat_inj, UInt64.toNat_and]
  show w.toNat &&& (mask i).toNat = 0 ↔ _
  constructor
  · intro h
    have hb := congrArg (Nat.testBit · (i % 64)) h
    simpa [testBit_mask] using hb
  · intro h
    refine Nat.eq_of_testBit_eq fun k => ?_
    rw [Nat.testBit_and, testBit_mask, Nat.zero_testBit]
    by_cases hk : i % 64 = k
    · rw [← hk, h, Bool.false_and]
    · rw [decide_eq_false hk, Bool.and_false]

theorem get_eq (h : i < b.size) : b.get i h = b.isSet i := by
  rw [get, isSet, Array.getElem?_eq_getElem (word_lt h), Option.any_some, Bool.eq_iff_iff,
    bne_iff_ne, ne_eq, and_mask_eq_zero, Bool.not_eq_false]

theorem isSet_zeros (n i : Nat) : (zeros n).isSet i = false := by
  rw [isSet, zeros, Array.getElem?_replicate]
  split
  · exact Nat.zero_testBit _
  · rfl

/-- Setting a bit changes nothing else. -/
theorem isSet_set (h : i < b.size) (j : Nat) :
    (b.set i h).isSet j = (decide (i = j) || b.isSet j) := by
  rw [isSet, isSet, set]
  dsimp only
  rw [Array.getElem?_set]
  by_cases hw : i / 64 = j / 64
  · have hij : (i % 64 = j % 64) = (i = j) := propext ⟨fun h => by omega, fun h => by rw [h]⟩
    rw [if_pos hw, ← hw, Array.getElem?_eq_getElem (word_lt h), Option.any_some, Option.any_some,
      UInt64.toNat_or, Nat.testBit_or, testBit_mask, Bool.or_comm]
    simp only [hij]
  · have hij : i ≠ j := fun h => hw (by rw [h])
    rw [if_neg hw, decide_eq_false hij, Bool.false_or]

end BitArray

end Xref
