import Xref.Filter.Bits
import Xref.Filter.SipHash

/-!
# Bloom filters

A filter remembers texts in a fixed number of bits and errs on one side only: it may take a text
for one it has seen, but never one it has seen for another (`mem_insertAll`).

Each text has two seeds, and its bits are at the first seed plus multiples of the second, in words
of 64 bits and modulo the number of bits. Nothing but the sizing rests on how the seeds are made,
so they are a parameter. Whatever they are, the bits that are set are those of the texts that have
been added (`isSet_insertAll`), which tells exactly for which texts a filter is taken in
(`mem_insertAll_empty_iff`).
-/

namespace Xref

/-- The two seeds of a text. -/
abbrev Seeds := Text → UInt64 × UInt64

/-- The bytes of a text under UTF-8. -/
def Text.bytes (s : Text) : List UInt8 :=
  (String.ofList s).toUTF8.toList

/-- Seeds by hashing the bytes and a closing byte, the second after an opening byte and made odd,
so that its multiples meet different bits in a filter whose size is a power of two. -/
def Seeds.standard : Seeds := fun s =>
  let bs := s.bytes ++ [0xff]
  (SipHash.hash bs, SipHash.hash (0x9e :: bs) ||| 1)

/-- A filter of one bit at least. -/
structure Bloom where
  bits : BitArray
  hashes : Nat
  bits_pos : 0 < bits.size

namespace Bloom

/-- The fewest bits a sized filter has. -/
def minBits : Nat := 64

/-- The most bits set for one text in a sized filter. -/
def maxHashes : Nat := 16

/-- The natural logarithm of two. -/
def ln2 : Float := 0.693147180559945309417232121458

/-- The bits for `n` texts at a rate of errors: as many as keep the rate. -/
def bitsFor (n : Nat) (rate : Float) : Nat :=
  let p := if rate < 1e-9 then 1e-9 else if rate > 0.5 then 0.5 else rate
  max minBits ((-(Float.ofNat (max n 1)) * p.log) / (ln2 * ln2)).ceil.toUInt64.toNat

/-- The hashes for `n` texts in so many bits: as many as make errors rarest. -/
def hashesFor (n bits : Nat) : Nat :=
  let k := ((Float.ofNat bits / Float.ofNat (max n 1)) * ln2).round
  if k < 1 then 1 else min maxHashes k.toUInt64.toNat

/-- An empty filter of a size. -/
def empty (bits hashes : Nat) (h : 0 < bits) : Bloom :=
  ⟨.zeros bits, hashes, h⟩

theorem bitsFor_pos (n : Nat) (rate : Float) : 0 < bitsFor n rate :=
  Nat.lt_of_lt_of_le (by decide) (Nat.le_max_left minBits _)

/-- An empty filter for `n` texts at a rate of errors. -/
def sized (n : Nat) (rate : Float) : Bloom :=
  empty (bitsFor n rate) (hashesFor n (bitsFor n rate)) (bitsFor_pos n rate)

/-- The bit that the `i`-th multiple of the second seed meets in a filter of `size` bits. -/
def bitIndex (size : Nat) (seeds : UInt64 × UInt64) (i : Nat) : Nat :=
  (seeds.1 + UInt64.ofNat i * seeds.2).toNat % size

theorem bitIndex_lt {size : Nat} (h : 0 < size) (seeds : UInt64 × UInt64) (i : Nat) :
    bitIndex size seeds i < size :=
  Nat.mod_lt _ h

/-- Sets a bit. -/
def setBit (b : Bloom) (i : Nat) (h : i < b.bits.size) : Bloom :=
  { b with bits := b.bits.set i h, bits_pos := b.bits_pos }

/-- Sets the bits of the first `n` multiples of the second seed. -/
def setBits (b : Bloom) (seeds : UInt64 × UInt64) : Nat → Bloom
  | 0 => b
  | n + 1 => (b.setBit _ (bitIndex_lt b.bits_pos seeds n)).setBits seeds n

/-- Adds a text. -/
def insert (f : Seeds) (b : Bloom) (s : Text) : Bloom :=
  b.setBits (f s) b.hashes

/-- Whether the text may have been added. -/
def mem (f : Seeds) (b : Bloom) (s : Text) : Bool :=
  (List.range b.hashes).all fun i => b.bits.get _ (bitIndex_lt b.bits_pos (f s) i)

/-- Adds texts. -/
def insertAll (f : Seeds) (b : Bloom) (ss : List Text) : Bloom :=
  ss.foldl (insert f) b

/-! ## What has been added is found -/

variable {f : Seeds} {b : Bloom} {p : UInt64 × UInt64} {n j : Nat} {s : Text} {ss : List Text}

@[simp] theorem size_setBits : (b.setBits p n).bits.size = b.bits.size := by
  induction n generalizing b with
  | zero => rfl
  | succ n ih => exact ih

@[simp] theorem hashes_setBits : (b.setBits p n).hashes = b.hashes := by
  induction n generalizing b with
  | zero => rfl
  | succ n ih => exact ih

@[simp] theorem size_insertAll : (b.insertAll f ss).bits.size = b.bits.size := by
  induction ss generalizing b with
  | nil => rfl
  | cons s ss ih => exact ih.trans size_setBits

@[simp] theorem hashes_insertAll : (b.insertAll f ss).hashes = b.hashes := by
  induction ss generalizing b with
  | nil => rfl
  | cons s ss ih => exact ih.trans hashes_setBits

/-- A text may have been added exactly when all its bits are set. -/
theorem mem_iff : b.mem f s = true ↔
    ∀ i < b.hashes, b.bits.isSet (bitIndex b.bits.size (f s) i) = true := by
  simp only [mem, List.all_eq_true, List.mem_range, BitArray.get_eq]

/-- The bits of the first `n` multiples are set, and no other bit is touched. -/
theorem isSet_setBits : (b.setBits p n).bits.isSet j = true ↔
    b.bits.isSet j = true ∨ ∃ i < n, bitIndex b.bits.size p i = j := by
  induction n generalizing b with
  | zero => exact ⟨.inl, fun h => h.resolve_right fun ⟨_, hi, _⟩ => Nat.not_lt_zero _ hi⟩
  | succ n ih =>
    have hs : (b.setBit _ (bitIndex_lt b.bits_pos p n)).bits.isSet j = true ↔
        bitIndex b.bits.size p n = j ∨ b.bits.isSet j = true := by
      rw [setBit, BitArray.isSet_set, Bool.or_eq_true, decide_eq_true_iff]
    rw [setBits, ih, hs]
    constructor
    · rintro ((h | h) | ⟨i, hi, h⟩)
      · exact .inr ⟨n, Nat.lt_succ_self n, h⟩
      · exact .inl h
      · exact .inr ⟨i, Nat.lt_succ_of_lt hi, h⟩
    · rintro (h | ⟨i, hi, h⟩)
      · exact .inl (.inr h)
      · rcases Nat.lt_succ_iff_lt_or_eq.1 hi with hi | rfl
        · exact .inr ⟨i, hi, h⟩
        · exact .inl (.inl h)

/-- The bits of the texts that are added are set, and no other bit is touched. -/
theorem isSet_insertAll : (b.insertAll f ss).bits.isSet j = true ↔
    b.bits.isSet j = true ∨ ∃ s ∈ ss, ∃ i < b.hashes, bitIndex b.bits.size (f s) i = j := by
  induction ss generalizing b with
  | nil => exact ⟨.inl, fun h => h.resolve_right fun ⟨_, hs, _⟩ => List.not_mem_nil hs⟩
  | cons s ss ih =>
    show ((b.insert f s).insertAll f ss).bits.isSet j = true ↔ _
    rw [ih, insert, isSet_setBits, size_setBits, hashes_setBits]
    simp only [List.mem_cons, exists_eq_or_imp, or_assoc]

/-- Every one of the texts added is found. -/
theorem mem_insertAll (h : s ∈ ss) : (b.insertAll f ss).mem f s = true := by
  rw [mem_iff]
  intro i hi
  rw [hashes_insertAll] at hi
  rw [size_insertAll, isSet_insertAll]
  exact .inr ⟨s, h, i, hi, rfl⟩

/-- A filter takes a text for one it has seen if each of its bits is one of a text it has seen. -/
theorem mem_insertAll_empty_iff {bits hashes : Nat} {h : 0 < bits} :
    ((empty bits hashes h).insertAll f ss).mem f s = true ↔ ∀ i < hashes,
      ∃ t ∈ ss, ∃ j < hashes, bitIndex bits (f t) j = bitIndex bits (f s) i := by
  rw [mem_iff, size_insertAll, hashes_insertAll]
  refine forall_congr' fun i => imp_congr_right fun _ => ?_
  rw [isSet_insertAll]
  have hz (j : Nat) : (empty bits hashes h).bits.isSet j = false := BitArray.isSet_zeros bits j
  rw [hz]
  exact ⟨fun h => h.resolve_left Bool.false_ne_true, .inr⟩

end Bloom

end Xref
