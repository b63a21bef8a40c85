import Xref.Tree.Event

/-!
# Cursors

A parser moves over lexemes and describes the tree as it goes. Its cursor holds the lexemes ahead,
the last one it moved past, and the events so far. Four moves are all there is: open a node, move
the next lexeme into the tree, note a missing token, close a node. The lexemes ahead change by
`bump` alone, which drops the first of them, so what a composite move takes off the lexemes ahead
can be read off its bumps.

Loops run until a condition holds, on a measure that each round has to lower (`repeatUntil`).
-/

namespace Xref

/-- Runs `step` until `stop` holds; every round lowers `size`. -/
def repeatUntil {σ : Type} (size : σ → Nat) (stop : σ → Bool) (step : σ → σ)
    (lt : ∀ s, stop s = false → size (step s) < size s) (s : σ) : σ :=
  if _h : stop s then s else repeatUntil size stop step lt (step s)
termination_by size s
decreasing_by exact lt s (by simpa using _h)

section

variable {σ : Type} {m : σ → Nat} {p : σ → Bool} {f : σ → σ}
  {lt : ∀ s, p s = false → m (f s) < m s}

/-- The loop ends where its condition holds. -/
theorem stop_repeatUntil (s : σ) : p (repeatUntil m p f lt s) = true := by
  induction s using repeatUntil.induct m p f lt with
  | case1 s h => rw [repeatUntil, dif_pos h]; exact h
  | case2 s h ih => rw [repeatUntil, dif_neg h]; exact ih

/-- What every round keeps, the loop keeps. -/
theorem repeatUntil_induct {P : σ → Prop} (s : σ) (h0 : P s)
    (hs : ∀ s, p s = false → P s → P (f s)) : P (repeatUntil m p f lt s) := by
  induction s using repeatUntil.induct m p f lt with
  | case1 s h => rw [repeatUntil, dif_pos h]; exact h0
  | case2 s h ih => rw [repeatUntil, dif_neg h]; exact ih (hs s (by simpa using h) h0)

theorem size_repeatUntil_le (s : σ) : m (repeatUntil m p f lt s) ≤ m s :=
  repeatUntil_induct (P := fun t => m t ≤ m s) s (Nat.le_refl _)
    fun t ht h => Nat.le_trans (Nat.le_of_lt (lt t ht)) h

end

/-- The lexemes ahead, the last one moved past, and the events so far, the newest first. -/
structure Cursor where
  ahead : List Lexeme
  previous : Option Lexeme
  events : List Event

namespace Cursor

/-- The cursor before the first lexeme. -/
def ofLexemes (ls : List Lexeme) : Cursor :=
  { ahead := ls, previous := none, events := [] }

/-- The kind of the lexeme `n` ahead. -/
def kind (c : Cursor) (n : Nat) : TokenKind :=
  match c.ahead[n]? with
  | some l => l.kind
  | none => .endOfFile

/-- What the lexeme `n` ahead stands for. -/
def value (c : Cursor) (n : Nat) : Text :=
  match c.ahead[n]? with
  | some l => l.value
  | none => []

/-- The lexeme `n` ahead stands for the word. -/
def valueIs (c : Cursor) (n : Nat) (word : String) : Bool :=
  String.ofList (c.value n) == word

/-- The next lexeme has the kind. -/
def sees (c : Cursor) (k : TokenKind) : Bool :=
  c.kind 0 == k

/-- No lexeme is ahead. -/
def atEnd (c : Cursor) : Bool :=
  c.ahead.isEmpty

/-- The lexeme `n` ahead exists and belongs to the logical line of the one before it. -/
def continuesAt (c : Cursor) (n : Nat) : Bool :=
  match c.ahead[n]? with
  | some l => !l.startsLine
  | none => false

/-! ## Moves -/

/-- Opens a node. -/
def openNode (c : Cursor) (k : NodeKind) : Cursor :=
  { c with events := .opened k :: c.events }

/-- Closes the innermost open node. -/
def close (c : Cursor) : Cursor :=
  { c with events := .closed :: c.events }

/-- Closes nodes from the inside. -/
def closeMany (c : Cursor) : Nat → Cursor
  | 0 => c
  | n + 1 => c.close.closeMany n

/-- Notes that the text lacks a token. -/
def missing (c : Cursor) (k : TokenKind) : Cursor :=
  { c with events := .missing k :: c.events }

/-- Moves the next lexeme into the innermost open node. -/
def bump (c : Cursor) : Cursor :=
  match c.ahead with
  | [] => c
  | l :: ls => { ahead := ls, previous := some l, events := .token l :: c.events }

/-- Moves the next lexeme if it has the kind, else notes that it is missing. -/
def expect (c : Cursor) (k : TokenKind) : Cursor :=
  if c.sees k then c.bump else c.missing k

/-- Moves the next lexeme into a node of its own. -/
def wrap (c : Cursor) (k : NodeKind) : Cursor :=
  ((c.openNode k).bump).close

/-- The last lexeme moved has the kind. -/
def previousIs (c : Cursor) (k : TokenKind) : Bool :=
  c.previous.any fun l => l.kind == k

/-! ## What the moves leave ahead -/

@[simp] theorem ahead_openNode (c : Cursor) (k : NodeKind) : (c.openNode k).ahead = c.ahead := rfl

@[simp] theorem ahead_close (c : Cursor) : c.close.ahead = c.ahead := rfl

@[simp] theorem ahead_missing (c : Cursor) (k : TokenKind) : (c.missing k).ahead = c.ahead := rfl

@[simp] theorem ahead_closeMany (c : Cursor) (n : Nat) : (c.closeMany n).ahead = c.ahead := by
  induction n generalizing c with
  | zero => rfl
  | succ n ih => simp [closeMany, ih]

@[simp] theorem ahead_bump (c : Cursor) : c.bump.ahead = c.ahead.tail := by
  unfold bump
  split
  · next h => simp [h]
  · next h => simp [h]

@[simp] theorem ahead_wrap (c : Cursor) (k : NodeKind) : (c.wrap k).ahead = c.ahead.tail := by
  simp [wrap]

theorem length_ahead_expect_le (c : Cursor) (k : TokenKind) :
    (c.expect k).ahead.length ≤ c.ahead.length := by
  unfold expect
  split <;> simp

theorem atEnd_iff {c : Cursor} : c.atEnd = true ↔ c.ahead = [] := by
  simp [atEnd]

/-- At the end the next kind is that of the end; elsewhere a lexeme is ahead. -/
theorem length_pos_of_kind_ne {c : Cursor} {n : Nat} (h : c.kind n ≠ .endOfFile) :
    n < c.ahead.length := by
  unfold kind at h
  split at h
  · next l hl => exact (List.getElem?_eq_some_iff.1 hl).1
  · exact absurd rfl h

theorem length_pos_of_continuesAt {c : Cursor} {n : Nat} (h : c.continuesAt n = true) :
    n < c.ahead.length := by
  unfold continuesAt at h
  split at h
  · next l hl => exact (List.getElem?_eq_some_iff.1 hl).1
  · simp at h

end Cursor

end Xref
