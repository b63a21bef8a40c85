/-!
# Spans

A span is a half-open range of byte offsets. Its end never precedes its start; `Span.ofBounds`
raises the end where necessary, so every pair of offsets gives a span.
-/

namespace Xref

/-- The offsets from `start` up to, and without, `stop`. -/
structure Span where
  start : Nat
  stop : Nat
  start_le_stop : start ≤ stop
  deriving DecidableEq

namespace Span

/-- The span between two offsets; empty at the first if the second precedes it. -/
def ofBounds (start stop : Nat) : Span :=
  ⟨start, max start stop, Nat.le_max_left ..⟩

/-- The empty span at an offset. -/
def point (offset : Nat) : Span :=
  ⟨offset, offset, Nat.le_refl _⟩

/-- The span of `n` bytes from `start`. -/
def ofSize (start n : Nat) : Span :=
  ⟨start, start + n, Nat.le_add_right ..⟩

instance : Inhabited Span := ⟨point 0⟩

/-- Length in bytes. -/
def size (a : Span) : Nat :=
  a.stop - a.start

/-- Holds no offset. -/
def isEmpty (a : Span) : Bool :=
  a.start == a.stop

/-- Holds the offset. -/
def contains (a : Span) (offset : Nat) : Bool :=
  a.start ≤ offset && offset < a.stop

/-- Lies around the whole of `b`. -/
def encloses (a b : Span) : Bool :=
  a.start ≤ b.start && b.stop ≤ a.stop

/-- The smallest span around both. -/
def cover (a b : Span) : Span :=
  ofBounds (min a.start b.start) (max a.stop b.stop)

/-- Order by start, then by end. -/
def order (a b : Span) : Ordering :=
  (compare a.start b.start).then (compare a.stop b.stop)

/-- Written with both offsets, as in `[4..7)`. -/
def render (a : Span) : String :=
  "[" ++ toString a.start ++ ".." ++ toString a.stop ++ ")"

@[simp] theorem start_point (n : Nat) : (point n).start = n := rfl
@[simp] theorem stop_point (n : Nat) : (point n).stop = n := rfl
@[simp] theorem start_ofSize (s n : Nat) : (ofSize s n).start = s := rfl
@[simp] theorem stop_ofSize (s n : Nat) : (ofSize s n).stop = s + n := rfl
@[simp] theorem start_ofBounds (s e : Nat) : (ofBounds s e).start = s := rfl
@[simp] theorem stop_ofBounds (s e : Nat) : (ofBounds s e).stop = max s e := rfl

theorem isEmpty_iff {a : Span} : a.isEmpty = true ↔ a.start = a.stop := by
  simp [isEmpty]

theorem encloses_iff {a b : Span} :
    a.encloses b = true ↔ a.start ≤ b.start ∧ b.stop ≤ a.stop := by
  simp [encloses]

end Span

end Xref
