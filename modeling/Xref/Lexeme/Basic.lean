import Xref.Kind
import Xref.Text.Basic

/-!
# Lexemes

A lexeme is a token as it stands in the text: its characters together with the trivia around it.
Trailing trivia reaches up to and including the next line break; everything else before the next
token is that token's leading trivia. A directive is one piece of leading trivia and is made of
words of its own, which carry plain trivia only.

Lexemes have no positions. Where they stand follows from their order, because the sources of
consecutive lexemes follow each other in the text without a gap.
-/

namespace Xref

/-- A plain piece of trivia. -/
structure Trivia where
  kind : TriviaKind
  text : Text
  deriving DecidableEq

/-- The characters of consecutive pieces. -/
def Trivia.sources (ts : List Trivia) : Text :=
  ts.flatMap Trivia.text

/-- A token of a directive with the trivia around it. -/
structure Word where
  kind : TokenKind
  text : Text
  /-- The name that the token stands for, where it is spelled with an escape. -/
  decoded : Option Text := none
  leading : List Trivia := []
  trailing : List Trivia := []
  deriving DecidableEq

/-- The characters of a word and of the trivia around it. -/
def Word.source (w : Word) : Text :=
  Trivia.sources w.leading ++ w.text ++ Trivia.sources w.trailing

/-- A piece of leading trivia. -/
inductive Lead
  | trivia (t : Trivia)
  | directive (words : List Word)
  deriving DecidableEq

namespace Lead

/-- The characters of the piece. -/
def source : Lead → Text
  | trivia t => t.text
  | directive ws => ws.flatMap Word.source

/-- The kind of the piece. -/
def kind : Lead → TriviaKind
  | trivia t => t.kind
  | directive _ => .directive

/-- The words of a directive; other pieces have none. -/
def words : Lead → List Word
  | trivia _ => []
  | directive ws => ws

/-- The piece is a directive. -/
def isDirective : Lead → Bool
  | trivia _ => false
  | directive _ => true

/-- The characters of consecutive pieces. -/
def sources (ls : List Lead) : Text :=
  ls.flatMap source

end Lead

/-- A token with the trivia around it. -/
structure Lexeme where
  kind : TokenKind
  text : Text
  /-- The name that the token stands for, where it is spelled with an escape. -/
  decoded : Option Text := none
  leading : List Lead := []
  trailing : List Trivia := []
  /-- The token begins a logical line. -/
  startsLine : Bool := false
  deriving DecidableEq

namespace Lexeme

/-- What the token stands for: its name if it is an escaped name, else its characters. -/
def value (l : Lexeme) : Text :=
  l.decoded.getD l.text

/-- The characters of the token and of the trivia around it. -/
def source (l : Lexeme) : Text :=
  Lead.sources l.leading ++ l.text ++ Trivia.sources l.trailing

/-- The characters of consecutive lexemes. -/
def sources (ls : List Lexeme) : Text :=
  ls.flatMap source

/-- A word as a lexeme. -/
def ofWord (w : Word) : Lexeme :=
  { kind := w.kind, text := w.text, decoded := w.decoded,
    leading := w.leading.map Lead.trivia, trailing := w.trailing }

/-- The lexeme of a token that the text lacks. -/
def absent (k : TokenKind) : Lexeme :=
  { kind := k, text := [] }

@[simp] theorem source_absent (k : TokenKind) : (absent k).source = [] := rfl

@[simp] theorem source_ofWord (w : Word) : (ofWord w).source = w.source := by
  simp [ofWord, source, Word.source, Lead.sources, Trivia.sources, List.flatMap_map, Lead.source]

end Lexeme

end Xref
