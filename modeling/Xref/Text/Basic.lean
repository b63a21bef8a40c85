/-!
# Text

Text is a list of characters. Offsets into it count the bytes of its UTF-8 encoding, so an offset
may fall inside a character; cutting there gives nothing.
-/

namespace Xref

/-- A piece of text. -/
abbrev Text := List Char

namespace Text

/-- Length in bytes. -/
def size : Text → Nat
  | [] => 0
  | c :: r => c.utf8Size + size r

@[simp] theorem size_nil : size [] = 0 := rfl

@[simp] theorem size_cons (c : Char) (r : Text) : size (c :: r) = c.utf8Size + size r := rfl

@[simp] theorem size_append (s t : Text) : size (s ++ t) = size s + size t := by
  induction s with
  | nil => simp
  | cons c r ih => simp [ih, Nat.add_assoc]

theorem size_pos {s : Text} (h : s ≠ []) : 0 < size s := by
  cases s with
  | nil => exact absurd rfl h
  | cons c r => have := c.utf8Size_pos; simp; omega

@[simp] theorem size_eq_zero {s : Text} : size s = 0 ↔ s = [] := by
  constructor
  · intro h
    by_cases hs : s = []
    · exact hs
    · have := size_pos hs; omega
  · rintro rfl; rfl

/-- The text from byte `n` on, or nothing if `n` is past the end or inside a character. -/
def dropBytes? (n : Nat) : Text → Option Text
  | [] => if n = 0 then some [] else none
  | c :: r =>
    if n = 0 then some (c :: r)
    else if c.utf8Size ≤ n then dropBytes? (n - c.utf8Size) r
    else none

/-- The first `n` bytes, or nothing if `n` is past the end or inside a character. -/
def takeBytes? (n : Nat) : Text → Option Text
  | [] => if n = 0 then some [] else none
  | c :: r =>
    if n = 0 then some []
    else if c.utf8Size ≤ n then (takeBytes? (n - c.utf8Size) r).map (c :: ·)
    else none

/-- A cut succeeds exactly at the byte lengths of the text's initial pieces. -/
theorem dropBytes?_eq_some_iff {n : Nat} {s r : Text} :
    dropBytes? n s = some r ↔ ∃ p, s = p ++ r ∧ size p = n := by
  induction s generalizing n with
  | nil =>
    unfold dropBytes?
    constructor
    · intro h
      split at h
      · simp_all
      · simp at h
    · rintro ⟨p, hp, rfl⟩
      obtain ⟨rfl, rfl⟩ := List.append_eq_nil_iff.1 hp.symm
      simp
  | cons c s ih =>
    unfold dropBytes?
    have hc := c.utf8Size_pos
    constructor
    · intro h
      split at h
      · next h0 => exact ⟨[], by simp_all⟩
      · split at h
        · next h1 =>
          obtain ⟨p, rfl, hp⟩ := ih.1 h
          exact ⟨c :: p, rfl, by simp; omega⟩
        · simp at h
    · rintro ⟨p, hp, rfl⟩
      cases p with
      | nil => simp at hp; simp [hp]
      | cons d p =>
        obtain ⟨rfl, rfl⟩ := List.cons.inj hp
        have : c.utf8Size + size p - c.utf8Size = size p := by omega
        simp only [size_cons, this]
        rw [if_neg (by omega), if_pos (by omega)]
        exact ih.2 ⟨p, rfl, rfl⟩

/-- Taking bytes succeeds exactly at the byte lengths of the text's initial pieces. -/
theorem takeBytes?_eq_some_iff {n : Nat} {s p : Text} :
    takeBytes? n s = some p ↔ ∃ r, s = p ++ r ∧ size p = n := by
  induction s generalizing n p with
  | nil =>
    unfold takeBytes?
    constructor
    · intro h
      split at h
      · simp_all
      · simp at h
    · rintro ⟨r, hr, rfl⟩
      obtain ⟨rfl, rfl⟩ := List.append_eq_nil_iff.1 hr.symm
      simp
  | cons c s ih =>
    unfold takeBytes?
    have hc := c.utf8Size_pos
    constructor
    · intro h
      split at h
      · simp_all
      · split at h
        · next h1 =>
          obtain ⟨q, hq, rfl⟩ := Option.map_eq_some_iff.1 h
          obtain ⟨r, rfl, hp⟩ := ih.1 hq
          exact ⟨r, rfl, by simp; omega⟩
        · simp at h
    · rintro ⟨r, hp, rfl⟩
      cases p with
      | nil => simp
      | cons d p =>
        obtain ⟨rfl, rfl⟩ := List.cons.inj hp
        have : c.utf8Size + size p - c.utf8Size = size p := by omega
        simp only [size_cons, this]
        rw [if_neg (by omega), if_pos (by omega), ih.2 ⟨r, rfl, rfl⟩]
        rfl

/-- The bytes from `start` up to `stop`, empty where the text has no such piece. -/
def slice (s : Text) (start stop : Nat) : Text :=
  if start ≤ stop then ((dropBytes? start s).bind (takeBytes? (stop - start))).getD [] else []

/-- The pieces between the occurrences of `c`; there is always at least one. -/
def splitAt (c : Char) : Text → List Text
  | [] => [[]]
  | d :: r =>
    if d = c then [] :: splitAt c r
    else
      match splitAt c r with
      | [] => [[d]]
      | p :: ps => (d :: p) :: ps

/-- The piece after the last occurrence of `c`. -/
def afterLast (c : Char) (s : Text) : Text :=
  (splitAt c s).getLastD []

/-- The pieces joined by `c`. -/
def joinWith (c : Char) : List Text → Text
  | [] => []
  | [p] => p
  | p :: ps => p ++ c :: joinWith c ps

/-- The text in lower case, as far as ASCII letters go. -/
def asciiLower (s : Text) : Text :=
  s.map Char.toLower

end Text

end Xref
