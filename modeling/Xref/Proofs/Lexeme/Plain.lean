import Xref.Proofs.Lexeme.Cuts

/-!
# Only directives are called so

A directive is a piece of the leading trivia of a lexeme, with words of its own. The other pieces of
trivia, in front of a token, behind it and around the words of a directive, are cut off the text by
their shape and carry the kind of that shape, which is never that of a directive. So wherever a
piece is called a directive, its words are there (`LexemeSeq.plain_ofText`).

Around the words of a directive stand pieces of few kinds (`Gap.inDirective_directive`): blanks, a
comment, a free text and the line break at the end.
-/

namespace Xref

/-- No piece is called a directive. -/
def Trivia.Plain (ts : List Trivia) : Prop :=
  ∀ t ∈ ts, t.kind ≠ .directive

/-- No piece around the word is called a directive. -/
def Word.Plain (w : Word) : Prop :=
  Trivia.Plain w.leading ∧ Trivia.Plain w.trailing

/-- The piece is a directive, over words around which there is none, or is not called one. -/
def Lead.Plain : Lead → Prop
  | trivia t => t.kind ≠ .directive
  | directive ws => ∀ w ∈ ws, w.Plain

/-- What is called a directive around the token is one. -/
def Lexeme.Plain (l : Lexeme) : Prop :=
  (∀ p ∈ l.leading, p.Plain) ∧ Trivia.Plain l.trailing

/-- What may stand around the words of a directive. -/
def TriviaKind.inDirective : List TriviaKind :=
  [.whitespace, .lineComment, .message, .endOfLine]

/-- All pieces may stand around the words of a directive. -/
def Trivia.InDirective (ts : List Trivia) : Prop :=
  ∀ t ∈ ts, t.kind ∈ TriviaKind.inDirective

/-- All pieces around the word may stand there if it is one of a directive. -/
def Word.InDirective (w : Word) : Prop :=
  Trivia.InDirective w.leading ∧ Trivia.InDirective w.trailing

theorem Trivia.inDirective_nil : Trivia.InDirective [] :=
  List.forall_mem_nil _

theorem Trivia.inDirective_singleton {k : TriviaKind} {w : Text}
    (h : k ∈ TriviaKind.inDirective) : Trivia.InDirective [⟨k, w⟩] :=
  List.forall_mem_singleton.2 h

theorem Trivia.InDirective.plain {ts : List Trivia} (h : Trivia.InDirective ts) :
    Trivia.Plain ts := by
  have hk : ∀ k ∈ TriviaKind.inDirective, k ≠ .directive := by decide
  exact fun t ht => hk _ (h t ht)

theorem Word.InDirective.plain {w : Word} (h : w.InDirective) : w.Plain :=
  ⟨Trivia.InDirective.plain h.1, Trivia.InDirective.plain h.2⟩

theorem Trivia.plain_nil : Trivia.Plain [] :=
  List.forall_mem_nil _

namespace Gap

variable (l : Language)

theorem kind_shape?_ne {l : Language} {last : Option Char} {c : Char} {r : Text} {k : TriviaKind}
    {n : Nat} (h : shape? l last c r = some (k, n)) : k ≠ .directive := by
  rintro rfl
  cases l <;> grind [shape?]

/-! ## Directives -/

theorem inDirective_blanks (s : Text) : Trivia.InDirective (blanks s) := by
  unfold blanks
  split
  · exact Trivia.inDirective_nil
  · exact Trivia.inDirective_singleton (by decide)

theorem inDirective_directiveEnd (s : Text) : Trivia.InDirective (directiveEnd s).1 := by
  unfold directiveEnd
  split
  · exact Trivia.inDirective_nil
  · split
    · exact Trivia.inDirective_singleton (by decide)
    · exact Trivia.inDirective_nil

theorem WordCut.inDirective {l : Language} {s s' : Text} {w : Word} (h : WordCut l s w s') :
    w.InDirective := by
  refine ⟨h.leading ▸ Trivia.inDirective_nil, ?_⟩
  cases h <;> exact inDirective_blanks _

theorem Ends.inDirective {s s' : Text} {pending : List Trivia} (h : Ends s pending s') :
    Trivia.InDirective pending := by
  cases h with
  | bare => exact Trivia.inDirective_nil
  | behind hk => exact Trivia.inDirective_singleton (by rcases hk with rfl | rfl <;> decide)

theorem inDirective_directive (s : Text) : ∀ w ∈ (directive l s).1, w.InDirective := by
  obtain ⟨ws, s', pending, s'', h, he, hd⟩ := directive_cuts (l := l)
    (I := fun ws _ => ∀ w ∈ ws, w.InDirective)
    (fun h hw => List.forall_mem_append.2 ⟨h, List.forall_mem_singleton.2 hw.inDirective⟩)
    [] s (List.forall_mem_nil _)
  rw [hd]
  exact List.forall_mem_append.2
    ⟨h, List.forall_mem_singleton.2 ⟨he.inDirective, inDirective_directiveEnd _⟩⟩

/-! ## Trivia around tokens -/

theorem Piece.plain {l : Language} {m m' : Margin} {s s' : Text} {p : Lead}
    (h : Piece l m s p s' m') : p.Plain := by
  cases h with
  | trivia h => exact kind_shape?_ne h
  | directive => exact fun w hw => (inDirective_directive l _ w hw).plain

theorem plain_leading (m : Margin) (s : Text) : ∀ p ∈ (leading l m s).pieces, p.Plain :=
  forall_mem_leading Piece.plain m s

theorem plain_trailing (m : Margin) (s : Text) : Trivia.Plain (trailing l m s).pieces :=
  forall_mem_trailing Piece.plain m s

end Gap

namespace LexemeSeq

/-- What is called a directive in a text is one. -/
theorem plain_ofText (l : Language) (s : Text) : ∀ x ∈ (ofText l s).all, x.Plain :=
  forall_mem_scan (fun _ => ⟨Gap.plain_leading l _ _, Gap.plain_trailing l _ _⟩)
    (fun _ => ⟨Gap.plain_leading l _ _, Trivia.plain_nil⟩) startMargin s

end LexemeSeq

end Xref
