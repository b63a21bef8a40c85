import Xref.Lexeme.Basic
import Xref.Text.Span

/-!
# Tokens of a tree

A token of a tree is a lexeme together with where it stands: the offset at which its leading
trivia begins, and its place in the numbering of tokens and nodes. Every span is derived from
these, so the trivia and the characters of a token fill its full span from end to end.

A directive in the leading trivia of a token comes before the token in every respect: its node is
numbered at the token, and its words are numbered just before the token.
-/

namespace Xref

/-- The number of words in the directives of leading trivia. -/
def Lead.wordCount : List Lead → Nat
  | [] => 0
  | p :: ps => p.words.length + wordCount ps

/-- The number of directives in leading trivia. -/
def Lead.directiveCount (ls : List Lead) : Nat :=
  ls.countP Lead.isDirective

/-- A piece of trivia where it stands. -/
structure Piece where
  kind : TriviaKind
  span : Span
  /-- The node of a directive. -/
  node : Option Nat
  deriving DecidableEq

namespace Piece

/-- Plain pieces laid out from offset `n`. -/
def layOut (n : Nat) : List Trivia → List Piece
  | [] => []
  | t :: ts => ⟨t.kind, .ofSize n t.text.size, none⟩ :: layOut (n + t.text.size) ts

/-- Leading pieces laid out from offset `n`, with nodes numbered from `i`. -/
def layOutLead (n i : Nat) : List Lead → List Piece
  | [] => []
  | p :: ps =>
    let size := p.source.size
    if p.isDirective then
      ⟨p.kind, .ofSize n size, some i⟩ :: layOutLead (n + size) (i + 1) ps
    else ⟨p.kind, .ofSize n size, none⟩ :: layOutLead (n + size) i ps

end Piece

/-- A token where it stands in its tree. -/
structure Token where
  /-- Its number; that of the first word in its leading trivia is smaller by their count. -/
  id : Nat
  /-- The number of the first directive in its leading trivia. -/
  firstNode : Nat
  /-- Where its leading trivia begins. -/
  start : Nat
  lexeme : Lexeme
  /-- The text lacks the token. -/
  isMissing : Bool

namespace Token

/-- What the token is. -/
def kind (t : Token) : TokenKind :=
  t.lexeme.kind

/-- The characters of the token. -/
def text (t : Token) : Text :=
  t.lexeme.text

/-- What the token stands for. -/
def value (t : Token) : Text :=
  t.lexeme.value

/-- The span of the token without trivia. -/
def span (t : Token) : Span :=
  .ofSize (t.start + (Lead.sources t.lexeme.leading).size) t.lexeme.text.size

/-- The span of the token and its trivia. -/
def fullSpan (t : Token) : Span :=
  .ofSize t.start t.lexeme.source.size

/-- The leading trivia. -/
def leading (t : Token) : List Piece :=
  Piece.layOutLead t.start t.firstNode t.lexeme.leading

/-- The trailing trivia. -/
def trailing (t : Token) : List Piece :=
  Piece.layOut t.span.stop t.lexeme.trailing

/-- A directive is among the leading trivia. -/
def hasDirective (t : Token) : Bool :=
  t.lexeme.leading.any Lead.isDirective

/-- A name that the text has. -/
def isIdentifier (t : Token) : Bool :=
  t.kind == .identifier && !t.isMissing

/-- The words of a directive as tokens, laid out from offset `n` and numbered from `i`. -/
def layOutWords (n i firstNode : Nat) : List Word → List Token
  | [] => []
  | w :: ws =>
    { id := i, firstNode, start := n, lexeme := .ofWord w, isMissing := false }
      :: layOutWords (n + w.source.size) (i + 1) firstNode ws

end Token

end Xref
