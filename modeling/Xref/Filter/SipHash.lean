import Xref.Text.Basic

/-!
# SipHash-1-3

A keyed hash of bytes onto words of 64 bits: one round for every eight bytes and three at the end.
Words are read with the lowest byte first, and the last word holds the remaining bytes under the
length modulo 256. The key is zero.
-/

namespace Xref.SipHash

/-- The four words of the state. -/
structure State where
  v0 : UInt64
  v1 : UInt64
  v2 : UInt64
  v3 : UInt64

/-- Rotation to the left. -/
def rotate (x : UInt64) (n : UInt64) : UInt64 :=
  (x <<< n) ||| (x >>> (64 - n))

/-- The state before the first word. -/
def start : State :=
  ⟨0x736f6d6570736575, 0x646f72616e646f6d, 0x6c7967656e657261, 0x7465646279746573⟩

/-- One round. -/
def State.round (s : State) : State :=
  let v0 := s.v0 + s.v1
  let v2 := s.v2 + s.v3
  let v1 := rotate s.v1 13 ^^^ v0
  let v3 := rotate s.v3 16 ^^^ v2
  let v0 := rotate v0 32
  let v2 := v2 + v1
  let v0 := v0 + v3
  let v1 := rotate v1 17 ^^^ v2
  let v3 := rotate v3 21 ^^^ v0
  let v2 := rotate v2 32
  ⟨v0, v1, v2, v3⟩

/-- Takes in a word. -/
def State.absorb (s : State) (w : UInt64) : State :=
  let t := ({ s with v3 := s.v3 ^^^ w }).round
  { t with v0 := t.v0 ^^^ w }

/-- Bytes as a word, the lowest first. -/
def word (bs : List UInt8) : UInt64 :=
  bs.foldr (fun b w => (w <<< 8) ||| b.toUInt64) 0

/-- Takes in bytes, of which there are `n` in all. -/
def absorbAll (n : Nat) (s : State) : List UInt8 → State
  | b0 :: b1 :: b2 :: b3 :: b4 :: b5 :: b6 :: b7 :: bs =>
    absorbAll n (s.absorb (word [b0, b1, b2, b3, b4, b5, b6, b7])) bs
  | bs => s.absorb (word bs ||| (UInt64.ofNat (n % 256) <<< 56))

/-- The word a state ends with. -/
def State.finish (s : State) : UInt64 :=
  let t := ({ s with v2 := s.v2 ^^^ 0xff }).round.round.round
  t.v0 ^^^ t.v1 ^^^ t.v2 ^^^ t.v3

/-- The hash of bytes. -/
def hash (bs : List UInt8) : UInt64 :=
  (absorbAll bs.length start bs).finish

end Xref.SipHash
