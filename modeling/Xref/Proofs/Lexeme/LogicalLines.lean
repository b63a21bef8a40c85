import Mathlib.Data.List.DropRight
import Xref.Proofs.Lexeme.Attachment

/-!
# Where a logical line begins

A logical line goes over a line break if an underscore is the last thing on its line. The scanner
decides this piece by piece, with two marks in the margin: that the next token begins a line, and
that an underscore has joined the line it is on. Both tell no more than the pieces since the last
token do (`Margin.Tells`), whichever of the two scans has cut them off, so what the lexemes say
about their lines can be read off the trivia between them.

The marks are handed on from the trailing scan to the leading one, which begins without the second.
Nothing is lost there: the trailing scan stops behind a line break, where the mark is down, or where
nothing can lead, so that nobody asks for it (`Gap.startsLine_leading`).

An underscore is a piece of its own only where blanks go up to the end of its line. To say what
follows a piece, a text is cut into its segments, which are the tokens and the pieces of trivia, in
directives too (`LexemeSeq.segments`). `LexemeSeq.logicalLines_ofText` has both.
-/

namespace Xref

/-! ## Pieces and the lines they end -/

namespace Lead

/-- The pieces behind the last line break. -/
def openLine (ps : List Lead) : List Lead :=
  ps.rtakeWhile fun p => p.kind ≠ .endOfLine

/-- An underscore joins the line that the pieces leave open to the next one. -/
def Joins (ps : List Lead) : Prop :=
  ∃ p ∈ openLine ps, p.kind = .lineContinuation

/-- A logical line ends among the pieces: at a directive, or at a line break that no underscore
stands before on the same line. -/
def EndLogicalLine (ps : List Lead) : Prop :=
  (∃ p ∈ ps, p.kind = .directive) ∨
    ∃ before p, before ++ [p] <+: ps ∧ p.kind = .endOfLine ∧ ¬ Joins before

variable {ps : List Lead} {p : Lead}

theorem not_joins_nil : ¬ Joins [] := by
  rintro ⟨p, hp, -⟩
  cases hp

theorem not_endLogicalLine_nil : ¬ EndLogicalLine [] := by
  rintro (⟨p, hp, -⟩ | ⟨before, p, hp, -⟩)
  · cases hp
  · exact List.append_ne_nil_of_right_ne_nil _ (List.cons_ne_nil _ _) (List.prefix_nil.1 hp)

theorem joins_concat :
    Joins (ps ++ [p]) ↔ p.kind ≠ .endOfLine ∧ (Joins ps ∨ p.kind = .lineContinuation) := by
  unfold Joins openLine
  by_cases hp : p.kind = .endOfLine
  · rw [List.rtakeWhile_concat_neg _ _ _ (by simpa using hp)]
    simp [hp]
  · rw [List.rtakeWhile_concat_pos _ _ _ (by simpa using hp)]
    simp [hp, or_and_right, exists_or]

theorem endLogicalLine_concat :
    EndLogicalLine (ps ++ [p]) ↔
      EndLogicalLine ps ∨ p.kind = .directive ∨ p.kind = .endOfLine ∧ ¬ Joins ps := by
  constructor
  · rintro (⟨q, hq, hk⟩ | ⟨before, q, hq, hk⟩)
    · rcases List.mem_append.1 hq with hq | hq
      · exact .inl (.inl ⟨q, hq, hk⟩)
      · obtain rfl := List.mem_singleton.1 hq
        exact .inr (.inl hk)
    · rcases List.prefix_concat_iff.1 hq with he | hq
      · obtain ⟨rfl, hl⟩ := List.append_inj' he rfl
        obtain rfl := List.singleton_inj.1 hl
        exact .inr (.inr hk)
      · exact .inl (.inr ⟨before, q, hq, hk⟩)
  · rintro ((⟨q, hq, hk⟩ | ⟨before, q, hq, hk⟩) | hk | hk)
    · exact .inl ⟨q, List.mem_append_left _ hq, hk⟩
    · exact .inr ⟨before, q, hq.trans (List.prefix_append _ _), hk⟩
    · exact .inl ⟨p, List.mem_concat_self, hk⟩
    · exact .inr ⟨ps, p, List.prefix_rfl, hk⟩

end Lead

open Lead

/-! ## What the margin tells -/

/-- The marks of a margin against the pieces to its left, where `begun` tells whether the next token
began a line already before them. -/
structure Margin.Tells (m : Margin) (begun : Prop) (ps : List Lead) : Prop where
  startsLine : m.startsLine = true ↔ begun ∨ EndLogicalLine ps
  joined : m.joined = true ↔ Joins ps

namespace Gap

variable {m : Margin} {begun : Prop} {ps : List Lead}

theorem startsLine_after (m : Margin) (t : Trivia) :
    (after m t).startsLine = true ↔
      m.startsLine = true ∨ t.kind = .endOfLine ∧ ¬ m.joined = true := by
  unfold after
  cases t.kind <;> simp

theorem joined_after (m : Margin) (t : Trivia) :
    (after m t).joined = true ↔
      t.kind ≠ .endOfLine ∧ (m.joined = true ∨ t.kind = .lineContinuation) := by
  unfold after
  cases t.kind <;> simp

theorem tells_nil (hs : m.startsLine = true ↔ begun) (hj : m.joined = false) :
    m.Tells begun [] where
  startsLine := hs.trans (or_iff_left not_endLogicalLine_nil).symm
  joined := iff_of_false (Bool.eq_false_iff.1 hj) not_joins_nil

theorem tells_after {t : Trivia} (h : m.Tells begun ps) (ht : t.kind ≠ .directive) :
    (after m t).Tells begun (ps ++ [.trivia t]) where
  startsLine := by
    have ht : (Lead.trivia t).kind ≠ .directive := ht
    rw [startsLine_after, h.startsLine, h.joined, endLogicalLine_concat, or_iff_right ht, or_assoc]
    rfl
  joined := by
    rw [joined_after, h.joined, joins_concat]
    rfl

theorem tells_directive {last : Option Char} (ws : List Word) (h : m.Tells begun ps) :
    Margin.Tells { m with atLineStart := true, startsLine := true, last }
      begun (ps ++ [.directive ws]) where
  startsLine := by
    refine iff_of_true rfl (.inr ?_)
    rw [endLogicalLine_concat]
    exact .inr (.inl rfl)
  joined := by
    rw [joins_concat, ← h.joined]
    simp [Lead.kind]

theorem tells_piece {l : Language} {s s' : Text} {p : Lead} {m' : Margin} (h : m.Tells begun ps)
    (hp : Piece l m s p s' m') : m'.Tells begun (ps ++ [p]) := by
  cases hp with
  | trivia hs => exact tells_after h (kind_shape?_ne hs)
  | directive => exact tells_directive _ h

theorem tells_trailing (l : Language) (s : Text) (h : m.Tells begun ps) :
    (trailing l m s).margin.Tells begun (ps ++ (trailing l m s).pieces.map .trivia) :=
  trailing_cuts (I := fun ps m _ => m.Tells begun ps) tells_piece ps m s h

theorem tells_leading (l : Language) (s : Text) (h : m.Tells begun ps) :
    (leading l m s).margin.Tells begun (ps ++ (leading l m s).pieces) :=
  leading_cuts (I := fun ps m _ => m.Tells begun ps) tells_piece ps m s h

/-- A line that has come to its end is not joined to the next one. -/
theorem not_joins_of_endsLine {ts : List Trivia} (h : Trivia.EndsLine ts) :
    ¬ Joins (ts.map .trivia) := by
  obtain ⟨t, ht, hk⟩ := h
  obtain ⟨us, rfl⟩ := List.getLast?_eq_some_iff.1 ht
  rw [List.map_append, List.map_singleton, joins_concat]
  exact fun hj => hj.1 hk

/-- Where the leading scan takes over from the trailing one, it comes to the mark that all pieces
between the two tokens call for. -/
theorem startsLine_leading {l : Language} {s r : Text} {ts : List Trivia} {m' : Margin}
    (h : m.Tells begun []) (hm : m.atLineStart = false) (ht : trailing l m s = ⟨ts, r, m'⟩) :
    (leading l { m' with joined := false } r).margin.startsLine = true ↔
      begun ∨ EndLogicalLine
        (ts.map .trivia ++ (leading l { m' with joined := false } r).pieces) := by
  have htells := tells_trailing l s h
  have hstop := (breaksLast_trailing l s hm).2
  rw [ht] at htells hstop
  rcases hstop with he | he
  · -- behind a line break the mark that is taken down is not up
    have hj : m'.joined = false :=
      Bool.eq_false_iff.2 fun hj => not_joins_of_endsLine he (htells.joined.1 hj)
    have hr : { m' with joined := false } = m' := by
      rw [← hj]
    rw [hr]
    exact (tells_leading l r htells).startsLine
  · -- nothing leads, so the other mark stays what it is
    rw [leading_of_stops l he, List.append_nil]
    exact htells.startsLine

end Gap

/-! ## The segments of a text -/

/-- A segment of a text: a piece of trivia with its kind, or a token. -/
structure Segment where
  kind? : Option TriviaKind
  text : Text

/-- The characters of consecutive segments. -/
def Segment.sources (ps : List Segment) : Text :=
  ps.flatMap Segment.text

/-- A piece of trivia as a segment. -/
def Trivia.segment (t : Trivia) : Segment :=
  ⟨some t.kind, t.text⟩

/-- The segments of a word of a directive. -/
def Word.segments (w : Word) : List Segment :=
  w.leading.map Trivia.segment ++ ⟨none, w.text⟩ :: w.trailing.map Trivia.segment

/-- The segments of a piece of leading trivia, which are many for a directive. -/
def Lead.segments : Lead → List Segment
  | trivia t => [t.segment]
  | directive ws => ws.flatMap Word.segments

/-- The segments of a token and of the trivia around it. -/
def Lexeme.segments (l : Lexeme) : List Segment :=
  l.leading.flatMap Lead.segments ++ ⟨none, l.text⟩ :: l.trailing.map Trivia.segment

/-- The segments of all lexemes. -/
def LexemeSeq.segments (q : LexemeSeq) : List Segment :=
  q.all.flatMap Lexeme.segments

namespace Segment

theorem sources_cons (p : Segment) (ps : List Segment) : sources (p :: ps) = p.text ++ sources ps :=
  List.flatMap_cons

theorem sources_append (ps qs : List Segment) : sources (ps ++ qs) = sources ps ++ sources qs :=
  List.flatMap_append

theorem sources_flatMap {α : Type} (f : α → List Segment) (xs : List α) :
    sources (xs.flatMap f) = xs.flatMap fun x => sources (f x) :=
  List.flatMap_assoc

theorem sources_trivia (ts : List Trivia) :
    sources (ts.map Trivia.segment) = Trivia.sources ts := by
  rw [sources, List.flatMap_map]
  rfl

end Segment

open Segment

theorem Word.sources_segments (w : Word) : Segment.sources w.segments = w.source := by
  rw [segments, Segment.sources_append, Segment.sources_cons, Segment.sources_trivia,
    Segment.sources_trivia, source, List.append_assoc]

theorem Lead.sources_segments (ps : List Lead) :
    Segment.sources (ps.flatMap Lead.segments) = Lead.sources ps := by
  rw [sources_flatMap]
  refine List.flatMap_congr fun p _ => ?_
  cases p with
  | trivia t => exact List.append_nil _
  | directive ws =>
      show Segment.sources (ws.flatMap Word.segments) = ws.flatMap Word.source
      rw [sources_flatMap]
      exact List.flatMap_congr fun w _ => w.sources_segments

theorem Lexeme.sources_segments (l : Lexeme) : Segment.sources l.segments = l.source := by
  rw [segments, Segment.sources_append, Segment.sources_cons, Lead.sources_segments,
    Segment.sources_trivia, source, List.append_assoc]

/-- The segments of a text make it up. -/
theorem LexemeSeq.sources_segments_scan (l : Language) (m : Margin) (s : Text) :
    Segment.sources (scan l m s).segments = s := by
  rw [segments, sources_flatMap, List.flatMap_congr fun x _ => x.sources_segments, all,
    List.flatMap_append, List.flatMap_singleton]
  exact source_scan l m s

/-! ## What follows an underscore -/

/-- Only blanks stand before the next line break, or before the end of the text. -/
def Text.BlankAhead (t : Text) : Prop :=
  ∀ c ∈ t.takeWhile Gap.inLine, Gap.isBlank c = true

/-- Behind each underscore that joins lines only blanks stand on its line, where `rest` is the text
behind the segments. -/
def Segment.JoinsBlank (ps : List Segment) (rest : Text) : Prop :=
  ∀ p ps', p :: ps' <:+ ps → p.kind? = some .lineContinuation →
    Text.BlankAhead (sources ps' ++ rest)

namespace Segment

variable {p : Segment} {ps qs : List Segment} {rest : Text}

theorem joinsBlank_nil : JoinsBlank [] rest := by
  intro p ps' h
  cases List.suffix_nil.1 h

theorem joinsBlank_cons :
    JoinsBlank (p :: ps) rest ↔
      (p.kind? = some .lineContinuation → Text.BlankAhead (sources ps ++ rest)) ∧
        JoinsBlank ps rest := by
  constructor
  · intro h
    exact ⟨h p ps List.suffix_rfl, fun q qs hq => h q qs (hq.trans (List.suffix_cons _ _))⟩
  · rintro ⟨hp, hps⟩ q qs hq
    rcases List.suffix_cons_iff.1 hq with he | hq
    · obtain ⟨rfl, rfl⟩ := List.cons.inj he
      exact hp
    · exact hps q qs hq

theorem joinsBlank_append :
    JoinsBlank (ps ++ qs) rest ↔ JoinsBlank ps (sources qs ++ rest) ∧ JoinsBlank qs rest := by
  induction ps with
  | nil => exact (and_iff_right joinsBlank_nil).symm
  | cons p ps ih =>
      rw [List.cons_append, joinsBlank_cons, ih, joinsBlank_cons, sources_append,
        List.append_assoc, and_assoc]

theorem joinsBlank_of_forall (h : ∀ p ∈ ps, p.kind? ≠ some .lineContinuation) :
    JoinsBlank ps rest := by
  intro p ps' hp hk
  exact absurd hk (h p (hp.subset List.mem_cons_self))

/-- A token ends no line and joins none, so only the trivia around it counts. -/
theorem joinsBlank_lexeme {x : Lexeme}
    (hl : JoinsBlank (x.leading.flatMap Lead.segments)
      (x.text ++ (Trivia.sources x.trailing ++ rest)))
    (ht : JoinsBlank (x.trailing.map Trivia.segment) rest) : JoinsBlank x.segments rest := by
  refine joinsBlank_append.2 ⟨?_, joinsBlank_cons.2 ⟨nofun, ht⟩⟩
  rwa [sources_cons, Segment.sources_trivia, List.append_assoc]

end Segment

namespace Gap

variable (l : Language) (m : Margin) (s : Text)

/-- An underscore is a piece of trivia only where blanks follow it. -/
theorem blankAhead_of_shape? {l : Language} {last : Option Char} {c : Char} {r : Text} {n : Nat}
    (h : shape? l last c r = some (.lineContinuation, n)) : Text.BlankAhead (r.drop n) := by
  have hc : n = 0 ∧ beginsContinuation last c r = true := by
    cases l <;> grind [shape?]
  obtain ⟨rfl, hb⟩ := hc
  simp only [beginsContinuation, Bool.and_eq_true, List.all_eq_true] at hb
  exact hb.2

theorem kind?_ne_of_inDirective {ts : List Trivia} (h : Trivia.InDirective ts) :
    ∀ p ∈ ts.map Trivia.segment, p.kind? ≠ some .lineContinuation := by
  intro p hp hk
  obtain ⟨t, ht, rfl⟩ := List.mem_map.1 hp
  have hd := h t ht
  rw [Option.some.inj hk] at hd
  exact absurd hd (by decide)

/-- No underscore joins a directive to the next line. -/
theorem kind?_ne_of_mem_directive :
    ∀ p ∈ (Lead.directive (directive l s).1).segments, p.kind? ≠ some .lineContinuation := by
  intro p hp
  obtain ⟨w, hw, hp⟩ := List.mem_flatMap.1 hp
  obtain ⟨hl, ht⟩ := inDirective_directive l s w hw
  rcases List.mem_append.1 hp with hp | hp
  · exact kind?_ne_of_inDirective hl p hp
  · rcases List.mem_cons.1 hp with rfl | hp
    · exact nofun
    · exact kind?_ne_of_inDirective ht p hp

/-- A piece that is cut off leaves blanks behind an underscore. -/
theorem joinsBlank_piece {l : Language} {m m' : Margin} {s s' : Text} {ps : List Lead} {p : Lead}
    (h : JoinsBlank (ps.flatMap Lead.segments) s) (hp : Piece l m s p s' m') :
    JoinsBlank ((ps ++ [p]).flatMap Lead.segments) s' := by
  rw [List.flatMap_append, joinsBlank_append, Lead.sources_segments, Lead.sources_singleton,
    hp.source, List.flatMap_singleton]
  refine ⟨h, ?_⟩
  cases hp with
  | @trivia c r k n hs =>
      refine joinsBlank_cons.2 ⟨fun hk => ?_, joinsBlank_nil⟩
      obtain rfl : k = .lineContinuation := Option.some.inj hk
      exact blankAhead_of_shape? hs
  | directive => exact joinsBlank_of_forall (kind?_ne_of_mem_directive l _)

theorem joinsBlank_leading :
    JoinsBlank ((leading l m s).pieces.flatMap Lead.segments) (leading l m s).rest :=
  leading_cuts (I := fun ps _ s => JoinsBlank (ps.flatMap Lead.segments) s) joinsBlank_piece
    [] m s joinsBlank_nil

theorem joinsBlank_trailing :
    JoinsBlank ((trailing l m s).pieces.map Trivia.segment) (trailing l m s).rest := by
  have h := trailing_cuts (I := fun ps _ s => JoinsBlank (ps.flatMap Lead.segments) s)
    (joinsBlank_piece (l := l)) [] m s joinsBlank_nil
  rw [List.nil_append, List.flatMap_map] at h
  rw [List.map_eq_flatMap]
  exact h

end Gap

/-! ## Whole texts -/

/-- The trivia between a token and the next one. -/
def Lexeme.between (x y : Lexeme) : List Lead :=
  x.trailing.map .trivia ++ y.leading

/-- What the lexemes of a text say about its logical lines. -/
structure LexemeSeq.LogicalLines (q : LexemeSeq) (s : Text) : Prop where
  /-- The first token begins a line. -/
  first : ∃ x ∈ q.all.head?, x.startsLine = true
  /-- Each other token does exactly if a logical line ends between it and the token before. -/
  next : q.all.IsChain fun x y => y.startsLine = true ↔ Lead.EndLogicalLine (x.between y)
  /-- The segments make up the text. -/
  segments : Segment.sources q.segments = s
  /-- Behind an underscore that joins lines only blanks stand on its line. -/
  joins : ∀ p ps, p :: ps <:+ q.segments → p.kind? = some .lineContinuation →
    Text.BlankAhead (Segment.sources ps)

namespace LexemeSeq

theorem first_scan (l : Language) {m : Margin} (s : Text) (hm : m.startsLine = true) :
    ∃ x ∈ (scan l m s).all.head?, x.startsLine = true := by
  obtain ⟨x, hx, -, hs⟩ := head?_scan l m s
  have ht : Margin.Tells { m with joined := false } True [] :=
    Gap.tells_nil (iff_of_true hm trivial) rfl
  refine ⟨x, hx, ?_⟩
  rw [hs]
  exact (Gap.tells_leading l s ht).startsLine.2 (.inl trivial)

theorem next_scan (l : Language) (m : Margin) (s : Text) :
    (scan l m s).all.IsChain fun x y => y.startsLine = true ↔ EndLogicalLine (x.between y) := by
  refine isChain_scan_of (fun {lead c r} y hy => ?_) m s
  obtain ⟨x, hx, hlead, hs⟩ := head?_scan l (trailOf l c r).margin (trailOf l c r).rest
  obtain rfl : x = y := Option.some.inj ((Option.mem_def.1 hx).symm.trans hy)
  have ht : (afterToken (c :: r.take (Shape.ofLanguage l c r).more)).Tells False [] :=
    Gap.tells_nil (iff_of_false Bool.false_ne_true id) rfl
  rw [hs, Lexeme.between, hlead]
  exact (Gap.startsLine_leading ht rfl rfl).trans (or_iff_right id)

theorem joinsBlank_scan (l : Language) (m : Margin) (s : Text) :
    JoinsBlank (scan l m s).segments [] := by
  obtain ⟨m', s', h, he, hl⟩ := scan_cuts (l := l)
    (I := fun xs _ s => JoinsBlank (xs.flatMap Lexeme.segments) s)
    (fun {xs m s c r} h hr => by
      have hlead := Gap.joinsBlank_leading l { m with joined := false } s
      have hs := Gap.leading_source l { m with joined := false } s
      rw [hr] at hlead hs
      have ht := source_atToken l (Gap.leading l { m with joined := false } s) c r
      rw [List.flatMap_append, List.flatMap_singleton, joinsBlank_append, Lexeme.sources_segments,
        ht, hs]
      refine ⟨h, joinsBlank_lexeme ?_ (Gap.joinsBlank_trailing l _ _)⟩
      have ht : Trivia.sources (trailOf l c r).pieces ++ (trailOf l c r).rest =
          r.drop (Shape.ofLanguage l c r).more := Gap.trailing_source l _ _
      show JoinsBlank _ (c :: r.take (Shape.ofLanguage l c r).more ++
        (Trivia.sources (trailOf l c r).pieces ++ (trailOf l c r).rest))
      rwa [ht, List.cons_append, List.take_append_drop])
    [] m s joinsBlank_nil
  have hlead := Gap.joinsBlank_leading l { m' with joined := false } s'
  have hs := Gap.leading_source l { m' with joined := false } s'
  rw [he] at hlead hs
  rw [segments, all, List.flatMap_append, List.flatMap_singleton, joinsBlank_append,
    Lexeme.sources_segments, hl]
  refine ⟨?_, joinsBlank_lexeme hlead joinsBlank_nil⟩
  show JoinsBlank _ (Lead.sources (Gap.leading l { m' with joined := false } s').pieces ++
    [] ++ [] ++ [])
  rwa [List.append_nil, List.append_nil, hs]

/-- The lexemes of every text tell its logical lines. -/
theorem logicalLines_ofText (l : Language) (s : Text) : (ofText l s).LogicalLines s where
  first := first_scan l s rfl
  next := next_scan l startMargin s
  segments := sources_segments_scan l startMargin s
  joins p ps hp hk := by
    have h := joinsBlank_scan l startMargin s p ps hp hk
    rwa [List.append_nil] at h

-- A blank line ends the line that an underscore has joined to it.
example : (ofText .visualBasic "a _\n\nb _\nc".toList).all.map (·.startsLine) =
    [true, true, false, false] := by decide +kernel

end LexemeSeq

end Xref
