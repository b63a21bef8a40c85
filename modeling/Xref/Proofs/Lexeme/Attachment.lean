import Xref.Proofs.Lexeme.Plain

/-!
# Which token a piece of trivia belongs to

The trivia between two tokens is shared out at the first line break: what stands up to it and the
break itself trail the token to the left, the rest leads the token to the right. Two scans do this,
one after the other, and they agree on where the first one stops. A trailing scan that has met no
line break stops at the end of the text or at a character that begins no trivia, and the margin it
leaves has never come back to the start of a line: so there the leading scan that takes over finds
neither a piece nor a directive (`Gap.leading_afterTrailing`).

`LexemeSeq.attached_ofText` is the convention for the lexemes of a text, the one at its end among
them.
-/

namespace Xref

/-- No piece but the last is a line break. -/
def Trivia.BreaksLast (ts : List Trivia) : Prop :=
  ∀ t ∈ ts.dropLast, t.kind ≠ .endOfLine

/-- The last piece is a line break. -/
def Trivia.EndsLine (ts : List Trivia) : Prop :=
  ∃ t ∈ ts.getLast?, t.kind = .endOfLine

theorem Trivia.breaksLast_nil : Trivia.BreaksLast [] :=
  List.forall_mem_nil _

namespace Gap

variable (l : Language)

/-- Where nothing can lead: at the end of the text, or at a character that begins no trivia and,
not standing at the start of a line, no directive either. -/
def Stops (m : Margin) (s : Text) : Prop :=
  ∀ c r, s = c :: r → shape? l m.last c r = none ∧ m.atLineStart = false

theorem leading_of_stops {m : Margin} {s : Text} (h : Stops l m s) :
    leading l { m with joined := false } s = ⟨[], s, { m with joined := false }⟩ := by
  cases s with
  | nil => rw [leading.eq_def]
  | cons c r =>
      obtain ⟨hs, hm⟩ := h c r rfl
      rw [leading.eq_def]
      simp only [hs, hm, Bool.and_false, Bool.false_eq_true, if_false]

/-- Only a line break leads back to the start of a line. -/
theorem atLineStart_after {m : Margin} {t : Trivia} (ht : t.kind ≠ .endOfLine)
    (hm : m.atLineStart = false) : (after m t).atLineStart = false := by
  unfold after
  cases h : t.kind <;> simp_all

/-- A trailing scan stops behind the first line break, or where nothing can lead. -/
theorem breaksLast_trailing {m : Margin} (s : Text) (hm : m.atLineStart = false) :
    Trivia.BreaksLast (trailing l m s).pieces ∧
      (Trivia.EndsLine (trailing l m s).pieces ∨
        Stops l (trailing l m s).margin (trailing l m s).rest) := by
  obtain ⟨ts, us, m', s', hp, ⟨hts, hm'⟩, he⟩ := trailing_parts (l := l)
    (I := fun ps m _ => (∀ p ∈ ps, p.kind ≠ .endOfLine) ∧ m.atLineStart = false)
    (fun ⟨hps, hm⟩ hp hk => by
      refine ⟨List.forall_mem_append.2 ⟨hps, List.forall_mem_singleton.2 hk⟩, ?_⟩
      cases hp with
      | trivia => exact atLineStart_after hk hm
      | directive _ h => exact absurd h (Bool.eq_false_iff.1 hm))
    [] m s ⟨List.forall_mem_nil _, hm⟩
  have hts : ∀ t ∈ ts, t.kind ≠ .endOfLine := fun t ht => hts (.trivia t) (List.mem_map_of_mem ht)
  rw [hp]
  generalize (trailing l m s).rest = s'', (trailing l m s).margin = m'' at he
  cases he with
  | lineBreak h =>
      refine ⟨?_, .inl ⟨_, List.getLast?_concat .., rfl⟩⟩
      rwa [Trivia.BreaksLast, List.dropLast_concat]
  | stop h =>
      rw [List.append_nil]
      exact ⟨fun t ht => hts t ((List.dropLast_sublist ts).mem ht),
        .inr fun c r hs => ⟨h c r hs, hm'⟩⟩

/-- The leading scan takes up behind a line break, or finds nothing. -/
theorem leading_afterTrailing {m : Margin} (s : Text) (hm : m.atLineStart = false)
    (hl : (leading l { (trailing l m s).margin with joined := false }
      (trailing l m s).rest).pieces ≠ []) :
    Trivia.EndsLine (trailing l m s).pieces := by
  rcases (breaksLast_trailing l s hm).2 with h | h
  · exact h
  · exact absurd (congrArg Cut.pieces (leading_of_stops l h)) hl

end Gap

/-- Trivia leads the second of two neighbours only behind a line break that trails the first. -/
def Lexeme.LeadsAfterBreak (x y : Lexeme) : Prop :=
  y.leading ≠ [] → Trivia.EndsLine x.trailing

/-- The convention by which trivia is attached to the lexemes of a text. -/
structure LexemeSeq.Attached (q : LexemeSeq) : Prop where
  /-- No directive trails a lexeme, and a line break does so only as the last piece. -/
  trailing : ∀ x ∈ q.all, Trivia.Plain x.trailing ∧ Trivia.BreaksLast x.trailing
  /-- Behind the first lexeme trivia leads only where a line has ended. -/
  leading : q.all.IsChain Lexeme.LeadsAfterBreak
  /-- What is called a directive in leading trivia has its words there, and around these words
  there is none. -/
  directives : ∀ x ∈ q.all, ∀ p ∈ x.leading, p.Plain

namespace LexemeSeq

theorem breaksLast_scan (l : Language) (m : Margin) (s : Text) :
    ∀ x ∈ (scan l m s).all, Trivia.BreaksLast x.trailing :=
  forall_mem_scan (fun _ => (Gap.breaksLast_trailing l _ rfl).1)
    (fun _ => Trivia.breaksLast_nil) m s

/-- The first lexeme to the right of a margin has the trivia the leading scan finds there, and
begins a line if the scan says so. -/
theorem head?_scan (l : Language) (m : Margin) (s : Text) :
    ∃ x ∈ (scan l m s).all.head?,
      x.leading = (Gap.leading l { m with joined := false } s).pieces ∧
        x.startsLine = (Gap.leading l { m with joined := false } s).margin.startsLine := by
  cases h : (Gap.leading l { m with joined := false } s).rest with
  | nil => exact ⟨_, by rw [scan_of_end h]; rfl, rfl, rfl⟩
  | cons c r => exact ⟨_, by rw [scan_of_token h]; rfl, rfl, rfl⟩

theorem isChain_scan (l : Language) (m : Margin) (s : Text) :
    (scan l m s).all.IsChain Lexeme.LeadsAfterBreak := by
  refine isChain_scan_of (fun {lead c r} y hy hne => ?_) m s
  obtain ⟨x, hx, hlead, -⟩ := head?_scan l (trailOf l c r).margin (trailOf l c r).rest
  obtain rfl : x = y := Option.some.inj ((Option.mem_def.1 hx).symm.trans hy)
  rw [hlead] at hne
  exact Gap.leading_afterTrailing l _ rfl hne

/-- The trivia of every text is attached by the convention. -/
theorem attached_ofText (l : Language) (s : Text) : (ofText l s).Attached where
  trailing x hx := ⟨(plain_ofText l s x hx).2, breaksLast_scan l startMargin s x hx⟩
  leading := isChain_scan l startMargin s
  directives x hx := (plain_ofText l s x hx).1

end LexemeSeq

end Xref
