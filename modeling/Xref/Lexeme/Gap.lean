import Xref.Lexeme.Basic
import Xref.Lexeme.Shape

/-!
# The trivia between tokens

What stands between two tokens is cut into pieces one at a time. Trailing trivia ends with the
first line break; leading trivia goes on to the next token and is the only place of directives,
which begin with `#` as the first thing on a line.

The margin carries what has to be known from further left: whether only blanks stand between the
last line break and here, whether the next token begins a logical line, and whether an underscore
has joined the line to the next one.

Cutting loses nothing: the pieces and the rest make up the text (`trailing_source`,
`directive_source`, `leading_source`).
-/

namespace Xref

/-- What the scanner knows about the text to its left. -/
structure Margin where
  /-- Only blanks stand between the last line break and here. -/
  atLineStart : Bool
  /-- The next token begins a logical line. -/
  startsLine : Bool
  /-- An underscore joins this line to the next one. -/
  joined : Bool
  /-- The character to the left. -/
  last : Option Char
  deriving DecidableEq

/-- Pieces cut off the text, and what they leave. -/
structure Cut (α : Type) where
  pieces : List α
  rest : Text
  margin : Margin

namespace Gap

/-- A blank within a line; the byte order mark counts as one. -/
def isBlank (c : Char) : Bool :=
  !isLineBreak c && (Unicode.isWhiteSpace c || c == '\uFEFF')

/-- Does not end a line. -/
def inLine (c : Char) : Bool :=
  !isLineBreak c

/-- The rest of a comment between its own marks. -/
def blockCommentLength : Text → Nat
  | [] => 0
  | c :: r => if c = '*' && r.head? = some '/' then 2 else 1 + blockCommentLength r

/-- How many characters of the line break that begins with `c` follow it. -/
def lineBreakMore (c : Char) (r : Text) : Nat :=
  if c = '\r' && r.head? = some '\n' then 1 else 0

/-- The word `REM` in any case, before a blank or the end of the text. -/
def beginsRemark (s : Text) : Bool :=
  Text.asciiLower (s.take 3) == ['r', 'e', 'm'] &&
    match s.drop 3 with
    | [] => true
    | c :: _ => c == ' ' || c == '\t' || c == '\n' || c == '\x0c' || c == '\r'

/-- An underscore after a blank with nothing but blanks up to the end of the line. -/
def beginsContinuation (last : Option Char) (c : Char) (r : Text) : Bool :=
  c == '_' && last.all isBlank && (r.takeWhile inLine).all isBlank

/-- The kind of the plain trivia that begins at `c`, and how many characters follow `c`. -/
def shape? (l : Language) (last : Option Char) (c : Char) (r : Text) :
    Option (TriviaKind × Nat) :=
  if isLineBreak c then some (.endOfLine, lineBreakMore c r)
  else if isBlank c then some (.whitespace, (r.takeWhile isBlank).length)
  else
    match l with
    | .csharp =>
      if c = '/' && r.head? = some '/' then some (.lineComment, (r.takeWhile inLine).length)
      else if c = '/' && r.head? = some '*' then
        some (.blockComment, 1 + blockCommentLength (r.drop 1))
      else none
    | .visualBasic =>
      if c = '\'' || beginsRemark (c :: r) then
        some (.lineComment, (r.takeWhile inLine).length)
      else if beginsContinuation last c r then some (.lineContinuation, 0)
      else none

/-- The margin after a plain piece. -/
def after (m : Margin) (t : Trivia) : Margin :=
  let last := t.text.getLast?
  match t.kind with
  | .endOfLine =>
    { atLineStart := true, startsLine := m.startsLine || !m.joined, joined := false, last }
  | .lineContinuation => { m with atLineStart := false, joined := true, last }
  | .lineComment | .blockComment => { m with atLineStart := false, last }
  | _ => { m with last }

/-- Cuts off trailing trivia. -/
def trailing (l : Language) (m : Margin) (s : Text) : Cut Trivia :=
  match s with
  | [] => ⟨[], [], m⟩
  | c :: r =>
    match shape? l m.last c r with
    | none => ⟨[], c :: r, m⟩
    | some (k, n) =>
      let t : Trivia := ⟨k, c :: r.take n⟩
      if k = .endOfLine then ⟨[t], r.drop n, after m t⟩
      else
        let next := trailing l (after m t) (r.drop n)
        { next with pieces := t :: next.pieces }
termination_by s.length
decreasing_by simp only [List.length_drop, List.length_cons]; omega

theorem trailing_source (l : Language) (m : Margin) (s : Text) :
    Trivia.sources (trailing l m s).pieces ++ (trailing l m s).rest = s := by
  induction m, s using trailing.induct (l := l) with
  | case1 m => rw [trailing.eq_def]; rfl
  | case2 m c r h => rw [trailing.eq_def]; simp [h, Trivia.sources]
  | case3 m c r n h => rw [trailing.eq_def]; simp [h, Trivia.sources]
  | case4 m c r k n h t hk ih =>
    rw [trailing.eq_def]
    simp only [h, hk, if_false]
    simp only [Trivia.sources, List.flatMap_cons, List.append_assoc] at ih ⊢
    rw [ih]
    simp

/-! ## Directives -/

/-- The blanks at the front of the text, as trivia. -/
def blanks (s : Text) : List Trivia :=
  match s.takeWhile isBlank with
  | [] => []
  | t => [⟨.whitespace, t⟩]

/-- The text after the blanks at its front. -/
def afterBlanks (s : Text) : Text :=
  s.dropWhile isBlank

theorem blanks_source (s : Text) : Trivia.sources (blanks s) ++ afterBlanks s = s := by
  have h := List.takeWhile_append_dropWhile (p := isBlank) (l := s)
  unfold blanks afterBlanks
  split
  · next h0 => rw [h0] at h; simpa [Trivia.sources] using h
  · simp [Trivia.sources]

theorem length_afterBlanks_le (s : Text) : (afterBlanks s).length ≤ s.length :=
  (List.dropWhile_sublist _).length_le

/-- A comment begins at `c` within a directive. -/
def beginsDirectiveComment (l : Language) (c : Char) (r : Text) : Bool :=
  match l with
  | .csharp => c == '/' && r.head? == some '/'
  | .visualBasic => c == '\''

/-- The kind of a directive's word; Visual Basic directives have reserved words of their own. -/
def directiveKind (l : Language) (sh : Shape) (text : Text) : TokenKind :=
  if sh.kind = .identifier && sh.decoded.isNone && l = .visualBasic && Keyword.isDirective l text
  then .keyword else sh.kind

/-- The words of a directive up to the end of its line, with the comment that ends it. -/
def directiveWords (l : Language) (s : Text) : List Word × List Trivia × Text :=
  match s with
  | [] => ([], [], [])
  | c :: r =>
    if isLineBreak c then ([], [], c :: r)
    else if beginsDirectiveComment l c r then
      ([], [⟨.lineComment, c :: r.takeWhile inLine⟩], r.dropWhile inLine)
    else
      let sh := Shape.ofLanguage l c r
      let text := c :: r.take sh.more
      let after := r.drop sh.more
      let w : Word :=
        { kind := directiveKind l sh text, text, decoded := sh.decoded, trailing := blanks after }
      let next := directiveWords l (afterBlanks after)
      (w :: next.1, next.2)
termination_by s.length
decreasing_by
  have := length_afterBlanks_le (r.drop (Shape.ofLanguage l c r).more)
  simp at this ⊢; omega

theorem directiveWords_source (l : Language) (s : Text) :
    (directiveWords l s).1.flatMap Word.source ++ Trivia.sources (directiveWords l s).2.1
      ++ (directiveWords l s).2.2 = s := by
  induction s using directiveWords.induct (l := l) with
  | case1 => rw [directiveWords.eq_def]; rfl
  | case2 c r h => rw [directiveWords.eq_def]; simp [h, Trivia.sources]
  | case3 c r h h' => rw [directiveWords.eq_def]; simp [h, h', Trivia.sources]
  | case4 c r h h' sh after ih =>
    rw [directiveWords.eq_def]
    simp only [h, h', Bool.false_eq_true, if_false, List.flatMap_cons, Word.source]
    simp only [List.append_assoc] at ih ⊢
    rw [ih, blanks_source]
    simp [Trivia.sources]

/-- The name of a directive, if there is one, and what follows it and its blanks. -/
def directiveName (l : Language) (s : Text) : List Word × Text :=
  match s with
  | [] => ([], [])
  | c :: r =>
    if Unicode.isAlphabetic c then
      let text := c :: r.takeWhile Unicode.isAlphanumeric
      let after := r.dropWhile Unicode.isAlphanumeric
      let kind := if Keyword.isDirective l text then .keyword else .identifier
      ([{ kind, text, trailing := blanks after }], afterBlanks after)
    else ([], c :: r)

theorem directiveName_source (l : Language) (s : Text) :
    (directiveName l s).1.flatMap Word.source ++ (directiveName l s).2 = s := by
  unfold directiveName
  split
  · rfl
  · split
    · simp [Word.source, Trivia.sources]
      have := blanks_source (List.dropWhile Unicode.isAlphanumeric ‹List Char›)
      simp only [Trivia.sources] at this
      rw [this, List.takeWhile_append_dropWhile]
    · rfl

/-- The rest of a directive after its name: words, or free text. -/
def directiveBody (l : Language) (isMessage : Bool) (s : Text) :
    List Word × List Trivia × Text :=
  if isMessage then
    let pending :=
      match s.takeWhile inLine with
      | [] => []
      | t => [⟨.message, t⟩]
    ([], pending, s.dropWhile inLine)
  else directiveWords l s

theorem directiveBody_source (l : Language) (b : Bool) (s : Text) :
    (directiveBody l b s).1.flatMap Word.source ++ Trivia.sources (directiveBody l b s).2.1
      ++ (directiveBody l b s).2.2 = s := by
  unfold directiveBody
  split
  · have h := List.takeWhile_append_dropWhile (p := inLine) (l := s)
    simp only [List.flatMap_nil, List.nil_append]
    split
    · next h0 => rw [h0] at h; simpa [Trivia.sources] using h
    · simp [Trivia.sources]
  · exact directiveWords_source l s

/-- The line break that ends a directive, as trivia of its last word, and what follows it. -/
def directiveEnd (s : Text) : List Trivia × Text :=
  match s with
  | [] => ([], [])
  | c :: r =>
    if isLineBreak c then
      ([⟨.endOfLine, c :: r.take (lineBreakMore c r)⟩], r.drop (lineBreakMore c r))
    else ([], c :: r)

theorem directiveEnd_source (s : Text) :
    Trivia.sources (directiveEnd s).1 ++ (directiveEnd s).2 = s := by
  unfold directiveEnd
  split
  · rfl
  · split <;> simp [Trivia.sources]

/-- The directive whose `#` stands before `s`, and what follows it. -/
def directive (l : Language) (s : Text) : List Word × Text :=
  let hash : Word := { kind := .hash, text := ['#'], trailing := blanks s }
  let name := directiveName l (afterBlanks s)
  let isMessage := name.1.any fun w => Keyword.isMessageDirective l w.text
  let body := directiveBody l isMessage name.2
  let close := directiveEnd body.2.2
  let last : Word :=
    { kind := .endOfDirective, text := [], leading := body.2.1, trailing := close.1 }
  (hash :: name.1 ++ body.1 ++ [last], close.2)

theorem directive_source (l : Language) (s : Text) :
    (directive l s).1.flatMap Word.source ++ (directive l s).2 = '#' :: s := by
  simp only [directive, List.flatMap_append, List.flatMap_cons, List.flatMap_nil, Word.source,
    List.append_assoc, List.append_nil]
  rw [directiveEnd_source]
  simp only [← List.append_assoc]
  have hb := directiveBody_source l
    ((directiveName l (afterBlanks s)).1.any fun w => Keyword.isMessageDirective l w.text)
    (directiveName l (afterBlanks s)).2
  simp only [List.append_assoc] at hb ⊢
  rw [hb, directiveName_source, blanks_source]
  rfl

/-! ## Leading trivia -/

/-- Cuts off leading trivia. -/
def leading (l : Language) (m : Margin) (s : Text) : Cut Lead :=
  match s with
  | [] => ⟨[], [], m⟩
  | c :: r =>
    match shape? l m.last c r with
    | some (k, n) =>
      let t : Trivia := ⟨k, c :: r.take n⟩
      let next := leading l (after m t) (r.drop n)
      { next with pieces := .trivia t :: next.pieces }
    | none =>
      if c = '#' && m.atLineStart then
        let d := directive l r
        let m' : Margin :=
          { m with atLineStart := true, startsLine := true,
                   last := (d.1.flatMap Word.source).getLast? }
        let next := leading l m' d.2
        { next with pieces := .directive d.1 :: next.pieces }
      else ⟨[], c :: r, m⟩
termination_by s.length
decreasing_by
  · simp only [List.length_drop, List.length_cons]; omega
  · have h := congrArg List.length (directive_source l r)
    simp only [List.length_append, List.length_cons] at h
    have h1 : 1 ≤ ((directive l r).1.flatMap Word.source).length := by
      simp [directive, Word.source]; omega
    simp; omega

theorem leading_source (l : Language) (m : Margin) (s : Text) :
    Lead.sources (leading l m s).pieces ++ (leading l m s).rest = s := by
  induction m, s using leading.induct (l := l) with
  | case1 m => rw [leading.eq_def]; rfl
  | case2 m c r k n h t ih =>
    rw [leading.eq_def]
    simp only [h]
    simp only [Lead.sources, List.flatMap_cons, Lead.source, List.append_assoc] at ih ⊢
    rw [ih]
    simp
  | case3 m c r h hc d m' ih =>
    rw [leading.eq_def]
    simp only [h, hc, if_true]
    simp only [Lead.sources, List.flatMap_cons, Lead.source, List.append_assoc] at ih ⊢
    simp only [Bool.and_eq_true, decide_eq_true_eq] at hc
    rw [ih, directive_source, hc.1]
  | case4 m c r h hc =>
    rw [leading.eq_def]
    simp [h, hc, Lead.sources]

end Gap

end Xref
