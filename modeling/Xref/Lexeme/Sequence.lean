import Xref.Lexeme.Gap

/-!
# The lexemes of a text

A text is a sequence of lexemes followed by the end of the text, which is a lexeme of its own: it
has no characters but may have leading trivia. The sources of all of them in order are the text
(`source_ofText`).
-/

namespace Xref

/-- The lexemes of a text and the one that stands at its end. -/
structure LexemeSeq where
  lexemes : List Lexeme
  last : Lexeme

namespace LexemeSeq

/-- The margin at the beginning of a text. -/
def startMargin : Margin :=
  { atLineStart := true, startsLine := true, joined := false, last := none }

/-- The margin after a token. -/
def afterToken (text : Text) : Margin :=
  { atLineStart := false, startsLine := false, joined := false, last := text.getLast? }

/-- The lexeme at the end of the text, given its leading trivia. -/
def atEnd (lead : Cut Lead) : Lexeme :=
  { kind := .endOfFile, text := [], leading := lead.pieces, startsLine := lead.margin.startsLine }

/-- The trailing trivia of the token at `c`. -/
def trailOf (l : Language) (c : Char) (r : Text) : Cut Trivia :=
  let sh := Shape.ofLanguage l c r
  Gap.trailing l (afterToken (c :: r.take sh.more)) (r.drop sh.more)

/-- The lexeme of the token at `c`, given its leading trivia. -/
def atToken (l : Language) (lead : Cut Lead) (c : Char) (r : Text) : Lexeme :=
  let sh := Shape.ofLanguage l c r
  { kind := sh.kind, text := c :: r.take sh.more, decoded := sh.decoded, leading := lead.pieces,
    trailing := (trailOf l c r).pieces, startsLine := lead.margin.startsLine }

theorem source_atToken (l : Language) (lead : Cut Lead) (c : Char) (r : Text) :
    (atToken l lead c r).source ++ (trailOf l c r).rest = Lead.sources lead.pieces ++ c :: r := by
  have h := Gap.trailing_source l (afterToken (c :: r.take (Shape.ofLanguage l c r).more))
    (r.drop (Shape.ofLanguage l c r).more)
  simp only [atToken, Lexeme.source, List.append_assoc]
  rw [show Trivia.sources (trailOf l c r).pieces ++ (trailOf l c r).rest
      = r.drop (Shape.ofLanguage l c r).more from h]
  simp

/-- The lexemes of the text to the right of a margin. -/
def scan (l : Language) (m : Margin) (s : Text) : LexemeSeq :=
  let lead := Gap.leading l { m with joined := false } s
  match _h : lead.rest with
  | [] => ⟨[], atEnd lead⟩
  | c :: r =>
    let next := scan l (trailOf l c r).margin (trailOf l c r).rest
    ⟨atToken l lead c r :: next.lexemes, next.last⟩
termination_by s.length
decreasing_by
  have h1 := congrArg List.length (Gap.leading_source l { m with joined := false } s)
  have h2 := congrArg List.length (source_atToken l lead c r)
  rw [show (Gap.leading l { m with joined := false } s).rest = c :: r from _h] at h1
  simp only [List.length_append, List.length_cons, atToken, Lexeme.source] at h1 h2
  omega

/-- The lexemes of a text. -/
def ofText (l : Language) (s : Text) : LexemeSeq :=
  scan l startMargin s

/-- The characters of the lexemes and of the trivia around them. -/
def source (q : LexemeSeq) : Text :=
  Lexeme.sources q.lexemes ++ q.last.source

theorem scan_of_end {l : Language} {m : Margin} {s : Text}
    (h : (Gap.leading l { m with joined := false } s).rest = []) :
    scan l m s = ⟨[], atEnd (Gap.leading l { m with joined := false } s)⟩ := by
  rw [scan.eq_def]
  dsimp only
  split
  · rfl
  · next h' => rw [h] at h'; simp at h'

theorem scan_of_token {l : Language} {m : Margin} {s : Text} {c : Char} {r : Text}
    (h : (Gap.leading l { m with joined := false } s).rest = c :: r) :
    scan l m s =
      let next := scan l (trailOf l c r).margin (trailOf l c r).rest
      ⟨atToken l (Gap.leading l { m with joined := false } s) c r :: next.lexemes, next.last⟩ := by
  rw [scan.eq_def]
  dsimp only
  split
  · next h' => rw [h] at h'; simp at h'
  · next c' r' h' =>
    rw [h] at h'
    obtain ⟨rfl, rfl⟩ := List.cons.inj h'
    rfl

theorem source_scan (l : Language) (m : Margin) (s : Text) : (scan l m s).source = s := by
  induction m, s using scan.induct (l := l) with
  | case1 m s lead h =>
    have hl := Gap.leading_source l { m with joined := false } s
    rw [show (Gap.leading l { m with joined := false } s).rest = [] from h] at hl
    rw [scan_of_end h]
    simpa [source, Lexeme.sources, Lexeme.source, Trivia.sources, atEnd] using hl
  | case2 m s lead c r h ih =>
    have hl := Gap.leading_source l { m with joined := false } s
    rw [show (Gap.leading l { m with joined := false } s).rest = c :: r from h] at hl
    have ht := source_atToken l (Gap.leading l { m with joined := false } s) c r
    rw [scan_of_token h]
    simp only [source, Lexeme.sources, List.flatMap_cons, List.append_assoc] at ih ⊢
    rw [show List.flatMap Lexeme.source (scan l (trailOf l c r).margin (trailOf l c r).rest).lexemes
      ++ (scan l (trailOf l c r).margin (trailOf l c r).rest).last.source = (trailOf l c r).rest from ih, ht, hl]

theorem source_ofText (l : Language) (s : Text) : (ofText l s).source = s :=
  source_scan l startMargin s

end LexemeSeq

end Xref
