import Xref.Filter.Bloom

/-!
# Text as bytes

Offsets count the bytes of the UTF-8 encoding, and a search for bytes knows nothing of characters. It
need not: the first byte of a character is told from the others by itself, and no character's bytes
begin those of another. So the bytes of a text that is not empty stand among the bytes of another
text only where its characters stand (`Text.bytes_prefix_drop_iff`).
-/

namespace Xref.Text

/-- The loop that reads an array of bytes has the bytes it has read in front, in reverse. -/
theorem toList_loop (b : ByteArray) (i : Nat) (r : List UInt8) :
    ByteArray.toList.loop b i r = r.reverse ++ b.data.toList.drop i := by
  induction i, r using ByteArray.toList.loop.induct b with
  | case1 i r hi ih =>
      have hl : i < b.data.toList.length := hi
      rw [ByteArray.toList.loop, if_pos hi, ih, List.drop_eq_getElem_cons hl, List.reverse_cons,
        List.append_assoc]
      have hg : b.get! i = b.data.toList[i] := by
        rw [Array.getElem_toList]
        exact getElem!_pos b.data i hi
      rw [hg]
      rfl
  | case2 i r hi =>
      rw [ByteArray.toList.loop, if_neg hi, List.drop_eq_nil_of_le (Nat.not_lt.1 hi),
        List.append_nil]

theorem bytes_eq_flatMap (s : Text) : bytes s = s.flatMap String.utf8EncodeChar := by
  show ByteArray.toList.loop (String.ofList s).toByteArray 0 [] = _
  rw [toList_loop, String.toByteArray_ofList]
  exact List.toList_data_toByteArray

theorem bytes_nil : bytes [] = [] :=
  bytes_eq_flatMap []

theorem bytes_cons (c : Char) (s : Text) : bytes (c :: s) = String.utf8EncodeChar c ++ bytes s := by
  rw [bytes_eq_flatMap, bytes_eq_flatMap]
  exact List.flatMap_cons

theorem bytes_append (s t : Text) : bytes (s ++ t) = bytes s ++ bytes t := by
  rw [bytes_eq_flatMap, bytes_eq_flatMap, bytes_eq_flatMap]
  exact List.flatMap_append

theorem length_bytes (s : Text) : (bytes s).length = s.size := by
  induction s with
  | nil => rw [bytes_nil]; rfl
  | cons c s ih => rw [bytes_cons, List.length_append, ih, String.length_utf8EncodeChar, size_cons]

/-- Of two characters neither is encoded by bytes with which the encoding of the other goes on. -/
theorem encodeChar_inj {c d : Char} {a b : List UInt8}
    (h : String.utf8EncodeChar c ++ a = String.utf8EncodeChar d ++ b) : c = d ∧ a = b := by
  have hc (c : Char) (a : List UInt8) :
      ByteArray.utf8DecodeChar? (String.utf8EncodeChar c ++ a).toByteArray 0 = some c := by
    rw [List.toByteArray_append]
    exact ByteArray.utf8DecodeChar?_utf8EncodeChar_append
  have hcd : some c = some d := by rw [← hc c a, h, hc d b]
  obtain rfl := Option.some.inj hcd
  exact ⟨rfl, List.append_cancel_left h⟩

/-- Bytes that begin those of a text are the bytes of an initial piece of it. -/
theorem prefix_of_bytes_prefix {u s : Text} (h : bytes u <+: bytes s) : u <+: s := by
  induction u generalizing s with
  | nil => exact List.nil_prefix
  | cons c u ih =>
      obtain ⟨b, hb⟩ := h
      cases s with
      | nil =>
          rw [bytes_cons, bytes_nil, List.append_assoc] at hb
          exact absurd (List.append_eq_nil_iff.1 hb).1 String.utf8EncodeChar_ne_nil
      | cons d s =>
          rw [bytes_cons, bytes_cons, List.append_assoc] at hb
          obtain ⟨hcd, hb'⟩ := encodeChar_inj hb
          exact List.cons_prefix_cons.2 ⟨hcd, ih ⟨b, hb'⟩⟩

/-- The bytes of a text begin with the first byte of a character. -/
theorem isFirst_of_bytes_prefix {u : Text} (hu : u ≠ []) {bs : List UInt8} (h : bytes u <+: bs) :
    ∃ b r, bs = b :: r ∧ b.IsUTF8FirstByte := by
  obtain ⟨c, u, rfl⟩ := List.exists_cons_of_ne_nil hu
  obtain ⟨b, es, he⟩ := List.exists_cons_of_ne_nil (String.utf8EncodeChar_ne_nil (c := c))
  have hl : 0 < (String.utf8EncodeChar c).length := by
    rw [he]
    exact Nat.succ_pos _
  have hb : (String.utf8EncodeChar c)[0] = b := by
    simp only [he, List.getElem_cons_zero]
  obtain ⟨a, rfl⟩ := h
  refine ⟨b, es ++ bytes u ++ a, ?_, ?_⟩
  · rw [bytes_cons, he]
    rfl
  · rw [← hb]
    exact UInt8.isUTF8FirstByte_getElem_utf8EncodeChar.2 rfl

/-- The bytes of a text stand in another text exactly where its characters stand. -/
theorem bytes_prefix_drop_iff {u s : Text} (hu : u ≠ []) {n : Nat} :
    bytes u <+: (bytes s).drop n ↔ ∃ p r, s = p ++ u ++ r ∧ p.size = n := by
  constructor
  · intro h
    induction s generalizing n with
    | nil =>
        obtain ⟨b, r, hb, -⟩ := isFirst_of_bytes_prefix hu h
        rw [bytes_nil, List.drop_nil] at hb
        cases hb
    | cons c s ih =>
        rcases Nat.eq_zero_or_pos n with rfl | hn
        · obtain ⟨r, hr⟩ := prefix_of_bytes_prefix h
          exact ⟨[], r, hr.symm, rfl⟩
        rw [bytes_cons] at h
        have hl := String.length_utf8EncodeChar c
        rcases Nat.lt_or_ge n c.utf8Size with hlt | hge
        · -- the bytes would begin inside the character
          obtain ⟨b, r, hb, hf⟩ := isFirst_of_bytes_prefix hu h
          rw [← hl] at hlt
          rw [List.drop_append_of_le_length (Nat.le_of_lt hlt), List.drop_eq_getElem_cons hlt] at hb
          rw [← (List.cons.inj hb).1, UInt8.isUTF8FirstByte_getElem_utf8EncodeChar] at hf
          omega
        · rw [List.drop_append, List.drop_eq_nil_of_le (by omega), List.nil_append, hl] at h
          obtain ⟨p, r, rfl, hp⟩ := ih h
          exact ⟨c :: p, r, rfl, by rw [size_cons]; omega⟩
  · rintro ⟨p, r, rfl, rfl⟩
    rw [← length_bytes, List.append_assoc, bytes_append, List.drop_left, bytes_append]
    exact List.prefix_append _ _

end Xref.Text
