import Xref.Partition
import Xref.Text.Basic
import Xref.Text.Span

/-!
# Source text and its lines

A source text is one version of a document's text together with its table of lines. A line ends
with `\n`, `\r\n` or `\r` and includes its terminator; the last line has none and may be empty, so
every text has at least one line.

Positions give a zero-based line and a column in UTF-16 code units, the unit editors use.
-/

namespace Xref

/-- A zero-based line and a column in UTF-16 code units. One may be asked for with any numbers; those
that a text gives have room in 32 bits (`SourceText.position_lt`). -/
structure Position where
  line : Nat
  column : Nat
  deriving DecidableEq, Inhabited

/-- A position has 32 bits for the line and as many for the column. -/
def Position.bound : Nat := 0x100000000

/-- Ends a line, alone or as part of `\r\n`. -/
def isLineBreak (c : Char) : Bool :=
  c == '\n' || c == '\r'

namespace Text

/-- The lines of a text with their terminators. -/
def lines : Text → List Text
  | [] => [[]]
  | c :: r =>
    if c == '\n' || (c == '\r' && r.head? != some '\n') then [c] :: lines r
    else
      match lines r with
      | [] => [[c]]
      | l :: ls => (c :: l) :: ls

/-- The lines make up the text. -/
theorem flatten_lines (s : Text) : (lines s).flatten = s := by
  induction s with
  | nil => rfl
  | cons c r ih =>
    unfold lines
    split
    · simp [ih]
    · split
      · next h => rw [h] at ih; simp at ih; simp [← ih]
      · next l ls h => rw [h] at ih; simpa using ih

/-- The number of UTF-16 code units of a character. -/
def units16 (c : Char) : Nat :=
  if 0x10000 ≤ c.toNat then 2 else 1

/-- The UTF-16 code units of the characters that begin before byte `n`. -/
def unitsBefore (n : Nat) : Text → Nat
  | [] => 0
  | c :: r => if n = 0 then 0 else units16 c + unitsBefore (n - c.utf8Size) r

/-- The byte offset at which the text has had `n` code units, or its line ends. -/
def bytesToUnit (n : Nat) : Text → Nat
  | [] => 0
  | c :: r =>
    if n = 0 || isLineBreak c then 0 else c.utf8Size + bytesToUnit (n - units16 c) r

end Text

/-- A line and the offset at which it starts. -/
structure Line where
  start : Nat
  text : Text

/-- Lines laid out one after the other from offset `n`. -/
def Line.layOut (n : Nat) : List Text → List Line
  | [] => []
  | l :: ls => ⟨n, l⟩ :: layOut (n + l.size) ls

/-- One version of a document's text, with its table of lines. -/
structure SourceText where
  chars : Text
  version : Nat
  table : Array Line
  table_eq : table = (Line.layOut 0 chars.lines).toArray

namespace SourceText

/-- The given text, stamped with a version. -/
def ofText (chars : Text) (version : Nat) : SourceText :=
  ⟨chars, version, _, rfl⟩

/-- Length in bytes. -/
def size (s : SourceText) : Nat :=
  s.chars.size

/-- The text a span covers; empty if the span leaves the text or cuts a character. -/
def slice (s : SourceText) (a : Span) : Text :=
  s.chars.slice a.start a.stop

/-- The index of the line that holds an offset. -/
def lineIndex (s : SourceText) (offset : Nat) : Nat :=
  partitionPoint (fun l => decide (l.start ≤ offset)) s.table - 1

/-- The position of an offset; offsets past the end stand for the end. Of a line or column that is
out of bounds the low bits are kept. -/
def position (s : SourceText) (offset : Nat) : Position :=
  let o := min offset s.size
  let i := s.lineIndex o
  match s.table[i]? with
  | some l => ⟨i % Position.bound, l.text.unitsBefore (o - l.start) % Position.bound⟩
  | none => ⟨i % Position.bound, 0⟩

theorem position_lt (s : SourceText) (offset : Nat) :
    (s.position offset).line < Position.bound ∧ (s.position offset).column < Position.bound := by
  have hb : 0 < Position.bound := by decide
  simp only [position]
  split
  · exact ⟨Nat.mod_lt _ hb, Nat.mod_lt _ hb⟩
  · exact ⟨Nat.mod_lt _ hb, hb⟩

/-- The offset of a position; columns past the end of a line stand for its end. -/
def offset? (s : SourceText) (p : Position) : Option Nat :=
  s.table[p.line]?.map fun l => l.start + l.text.bytesToUnit p.column

end SourceText

end Xref
