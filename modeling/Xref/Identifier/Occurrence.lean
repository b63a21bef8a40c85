import Xref.Identifier.Comparison

/-!
# Occurrences of a name in text

The textual search behind the fast scan. An occurrence begins at a character and covers the
characters whose form under the comparison is exactly the form of the name looked for. Folding
may change the number of bytes, so an occurrence carries its own length.
-/

namespace Xref

/-- Where an occurrence starts, and its length in bytes. -/
structure Occurrence where
  start : Nat
  size : Nat
  deriving DecidableEq

namespace Comparison

/-- What is left of `s` after the initial piece `p`. -/
def stripLeading? : Text → Text → Option Text
  | [], s => some s
  | _ :: _, [] => none
  | c :: p, d :: s => if c = d then stripLeading? p s else none

/-- The bytes of the initial piece of the text whose folded form is `f`, for `f` not empty. -/
def foldedSize? (f : Text) : Text → Option Nat
  | [] => none
  | c :: r =>
    match stripLeading? (Unicode.lowercase c) f with
    | none => none
    | some [] => some c.utf8Size
    | some (d :: g) => (foldedSize? (d :: g) r).map (c.utf8Size + ·)

/-- The bytes of the initial piece of the text that equals the key `k`, for `k` not empty. -/
def leadingSize? (m : Comparison) (k s : Text) : Option Nat :=
  match m with
  | ordinal => (stripLeading? k s).map fun _ => k.size
  | ignoreCase => foldedSize? k s

/-- The first occurrence of the key `k` in text that begins at offset `n`. -/
def firstFrom? (m : Comparison) (k : Text) (n : Nat) : Text → Option Occurrence
  | [] => none
  | c :: r =>
    match m.leadingSize? k (c :: r) with
    | some b => some ⟨n, b⟩
    | none => firstFrom? m k (n + c.utf8Size) r

/-- The first occurrence of a name at or after an offset. There is none for the empty name, and
none if the offset is past the end or inside a character. -/
def find? (m : Comparison) (name text : Text) (start : Nat) : Option Occurrence :=
  match text.dropBytes? start with
  | none => none
  | some r => if name = [] then none else m.firstFrom? (m.key name) start r

/-- The bytes of an initial piece are never none. -/
theorem leadingSize?_pos {m : Comparison} {k s : Text} {b : Nat} (hk : k ≠ [])
    (h : m.leadingSize? k s = some b) : 0 < b := by
  cases m with
  | ordinal =>
    obtain ⟨_, _, rfl⟩ := Option.map_eq_some_iff.1 h
    exact Text.size_pos hk
  | ignoreCase =>
    cases s with
    | nil => simp [leadingSize?, foldedSize?] at h
    | cons c r =>
      have hc := c.utf8Size_pos
      simp only [leadingSize?, foldedSize?] at h
      split at h
      · simp at h
      · simp at h; omega
      · obtain ⟨x, _, rfl⟩ := Option.map_eq_some_iff.1 h; omega

/-- The first occurrence lies in the text it was looked for in. -/
theorem firstFrom?_bounds {m : Comparison} {k s : Text} {n : Nat} {o : Occurrence} (hk : k ≠ [])
    (h : m.firstFrom? k n s = some o) : n ≤ o.start ∧ o.start < n + s.size ∧ 0 < o.size := by
  induction s generalizing n with
  | nil => simp [firstFrom?] at h
  | cons c r ih =>
    have hc := c.utf8Size_pos
    simp only [firstFrom?] at h
    split at h
    · next b hb =>
      obtain rfl := Option.some.inj h
      exact ⟨Nat.le_refl _, by simp; omega, leadingSize?_pos hk hb⟩
    · obtain ⟨h1, h2, h3⟩ := ih h
      exact ⟨by omega, by simp; omega, h3⟩

theorem key_ne_nil {m : Comparison} {name : Text} (h : name ≠ []) : m.key name ≠ [] := by
  cases m with
  | ordinal => exact h
  | ignoreCase =>
    cases name with
    | nil => exact absurd rfl h
    | cons c r => simp [key, Text.fold, Unicode.lowercase_ne_nil]

/-- An occurrence begins at or after the offset asked for, inside the text, and is not empty. -/
theorem find?_bounds {m : Comparison} {name text : Text} {start : Nat} {o : Occurrence}
    (h : m.find? name text start = some o) :
    start ≤ o.start ∧ o.start < text.size ∧ 0 < o.size := by
  simp only [find?] at h
  split at h
  · simp at h
  · next r hr =>
    split at h
    · simp at h
    · next hn =>
      obtain ⟨p, rfl, rfl⟩ := Text.dropBytes?_eq_some_iff.1 hr
      have := firstFrom?_bounds (key_ne_nil hn) h
      simp only [Text.size_append]
      omega

/-- Every occurrence from an offset on, each looked for after the end of the one before. -/
def occurrences (m : Comparison) (name text : Text) (start : Nat) : List Occurrence :=
  match _h : m.find? name text start with
  | none => []
  | some o => o :: m.occurrences name text (o.start + o.size)
termination_by text.size - start
decreasing_by
  have := find?_bounds _h
  omega

end Comparison

end Xref
