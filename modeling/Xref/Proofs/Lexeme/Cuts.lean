import Mathlib.Data.List.Chain
import Xref.Lexeme.Sequence
import Xref.Proofs.Lexeme.Spot

/-!
# What the scanner cuts off

Everything between two tokens is cut off the text one part after the other, and each part is told by
what stands in front of it: a piece of trivia by its shape, a directive by its sign, a word of a
directive by what it begins with. `Gap.Piece` and `Gap.WordCut` say what one such cut is. What every
cut keeps, given all that has been cut off before, is kept by the whole scan, be it of the trivia
behind a token (`Gap.trailing_cuts`) or in front of one (`Gap.leading_cuts`), of a directive
(`Gap.directive_cuts`) or of a text (`LexemeSeq.scan_cuts`). So nobody else has to go through the
recursion of the scanner to know what its parts are.

The trivia behind a token goes no further than the first line break, which `Gap.trailing_parts`
adds. And what depends on the text on both sides of a cut is said once for each kind of cut
(`SpotInvariant`) and then holds of every token where it stands.
-/

namespace Xref

namespace Gap

variable {l : Language}

/-! ## Words of directives -/

/-- The word of a directive at `c`. -/
def wordAt (l : Language) (c : Char) (r : Text) : Word :=
  let sh := Shape.ofLanguage l c r
  { kind := directiveKind l sh (c :: r.take sh.more), text := c :: r.take sh.more,
    decoded := sh.decoded, trailing := blanks (r.drop sh.more) }

/-- A word is cut off a directive, and the rest is left. -/
inductive WordCut (l : Language) : Text → Word → Text → Prop
  | hash (s : Text) :
    WordCut l ('#' :: s) { kind := .hash, text := ['#'], trailing := blanks s } (afterBlanks s)
  | name {c : Char} {r : Text} {k : TokenKind} (alphabetic : Unicode.isAlphabetic c = true)
      (kind : k = .identifier ∨ k = .keyword) :
    WordCut l (c :: r)
      { kind := k, text := c :: r.takeWhile Unicode.isAlphanumeric,
        trailing := blanks (r.dropWhile Unicode.isAlphanumeric) }
      (afterBlanks (r.dropWhile Unicode.isAlphanumeric))
  | word {c : Char} {r : Text} (inLine : isLineBreak c = false) :
    WordCut l (c :: r) (wordAt l c r) (afterBlanks (r.drop (Shape.ofLanguage l c r).more))

/-- What stands between the words of a directive and the end of its line: nothing, or a comment or
message that goes up to there. -/
inductive Ends : Text → List Trivia → Text → Prop
  | bare {s : Text} (h : ∀ c ∈ s.head?, isLineBreak c = true) : Ends s [] s
  | behind {k : TriviaKind} (h : k = .lineComment ∨ k = .message) (s : Text) :
    Ends s [⟨k, s.takeWhile inLine⟩] (s.dropWhile inLine)

/-- The word at the end of a directive. -/
def endWord (pending : List Trivia) (s : Text) : Word :=
  { kind := .endOfDirective, text := [], leading := pending, trailing := (directiveEnd s).1 }

theorem WordCut.source {s s' : Text} {w : Word} (h : WordCut l s w s') : w.source ++ s' = s := by
  have source (k : TokenKind) (t u : Text) (d : Option Text) :
      Word.source { kind := k, text := t, decoded := d, trailing := blanks u } ++ afterBlanks u =
        t ++ u := by
    show [] ++ t ++ Trivia.sources (blanks u) ++ afterBlanks u = _
    rw [List.nil_append, List.append_assoc, blanks_source]
  cases h with
  | hash s => exact source ..
  | @name c r k ha hk =>
      rw [source, List.cons_append, List.takeWhile_append_dropWhile]
  | @word c r hc =>
      rw [wordAt, source, List.cons_append, List.take_append_drop]

theorem Ends.source {s s' : Text} {pending : List Trivia} (h : Ends s pending s') :
    Trivia.sources pending ++ s' = s := by
  cases h with
  | bare h => rfl
  | behind h s =>
      show s.takeWhile inLine ++ [] ++ _ = s
      rw [List.append_nil, List.takeWhile_append_dropWhile]

theorem WordCut.leading {s s' : Text} {w : Word} (h : WordCut l s w s') : w.leading = [] := by
  cases h <;> rfl

theorem Ends.source_endWord {s s' : Text} {pending : List Trivia} (h : Ends s pending s') :
    (endWord pending s').source ++ (directiveEnd s').2 = s := by
  show Trivia.sources pending ++ [] ++ Trivia.sources (directiveEnd s').1 ++ _ = s
  rw [List.append_nil, List.append_assoc, directiveEnd_source, h.source]

/-- At the end of a directive its line ends. -/
theorem Ends.isLineBreak {s s' : Text} {pending : List Trivia} (h : Ends s pending s') :
    ∀ c ∈ s'.head?, isLineBreak c = true := by
  cases h with
  | bare h => exact h
  | behind h s =>
      intro c hc
      have h := List.head?_dropWhile_not inLine s
      rw [hc] at h
      simpa [inLine] using h

section

variable {I : List Word → Text → Prop}

theorem directiveWords_cuts
    (step : ∀ {ws s w s'}, I ws s → WordCut l s w s' → I (ws ++ [w]) s') (ws : List Word) (s : Text)
    (h : I ws s) : ∃ s', I (ws ++ (directiveWords l s).1) s' ∧
      Ends s' (directiveWords l s).2.1 (directiveWords l s).2.2 := by
  induction s using directiveWords.induct (l := l) generalizing ws with
  | case1 =>
      rw [directiveWords.eq_def, List.append_nil]
      exact ⟨[], h, .bare fun _ h => by cases h⟩
  | case2 c r hc =>
      rw [directiveWords.eq_def]
      simp only [hc, if_true, List.append_nil]
      refine ⟨c :: r, h, .bare fun d hd => ?_⟩
      obtain rfl := Option.some.inj hd
      exact hc
  | case3 c r hc hc' =>
      rw [directiveWords.eq_def]
      simp only [hc, hc', Bool.false_eq_true, if_false, if_true, List.append_nil]
      have hi : inLine c = true := by simpa [inLine] using hc
      have he := Ends.behind (.inl rfl) (c :: r)
      rw [List.takeWhile_cons_of_pos hi, List.dropWhile_cons_of_pos hi] at he
      exact ⟨c :: r, h, he⟩
  | case4 c r hc hc' sh after =>
      rename_i ih
      rw [directiveWords.eq_def]
      simp only [hc, hc', Bool.false_eq_true, if_false]
      obtain ⟨s', hs, he⟩ := ih _ (step h (.word (Bool.eq_false_iff.2 hc)))
      rw [List.append_assoc] at hs
      exact ⟨s', hs, he⟩

theorem directiveName_cuts
    (step : ∀ {ws s w s'}, I ws s → WordCut l s w s' → I (ws ++ [w]) s') (ws : List Word) (s : Text)
    (h : I ws s) : I (ws ++ (directiveName l s).1) (directiveName l s).2 := by
  unfold directiveName
  split
  · rwa [List.append_nil]
  · split
    · next hc =>
        refine step h (.name hc ?_)
        split
        · exact .inr rfl
        · exact .inl rfl
    · rwa [List.append_nil]

theorem directiveBody_cuts (isMessage : Bool)
    (step : ∀ {ws s w s'}, I ws s → WordCut l s w s' → I (ws ++ [w]) s') (ws : List Word) (s : Text)
    (h : I ws s) : ∃ s', I (ws ++ (directiveBody l isMessage s).1) s' ∧
      Ends s' (directiveBody l isMessage s).2.1 (directiveBody l isMessage s).2.2 := by
  unfold directiveBody
  split
  · refine ⟨s, by rwa [List.append_nil], ?_⟩
    have he := Ends.behind (.inr rfl) s
    dsimp only
    split
    · next ht =>
        -- there is no message, so the line ends here
        have hs := List.takeWhile_append_dropWhile (p := inLine) (l := s)
        rw [ht, List.nil_append] at hs
        have hb := he.isLineBreak
        rw [hs] at hb ⊢
        exact .bare hb
    · exact he
  · exact directiveWords_cuts step ws s h

/-- What every cut of a word keeps holds of the words of a directive but the one at its end. -/
theorem directive_cuts
    (step : ∀ {ws s w s'}, I ws s → WordCut l s w s' → I (ws ++ [w]) s') (ws : List Word) (s : Text)
    (h : I ws ('#' :: s)) : ∃ vs s' pending s'', I (ws ++ vs) s' ∧ Ends s' pending s'' ∧
      directive l s = (vs ++ [endWord pending s''], (directiveEnd s'').2) := by
  have hn := directiveName_cuts step _ _ (step h (.hash s))
  obtain ⟨s', hs, he⟩ := directiveBody_cuts
    ((directiveName l (afterBlanks s)).1.any fun w => Keyword.isMessageDirective l w.text)
    step _ _ hn
  rw [List.append_assoc, List.append_assoc] at hs
  exact ⟨_, s', _, _, hs, he, rfl⟩

end

/-! ## Pieces of trivia -/

/-- A piece of trivia is cut off at a margin; the rest and another margin are left. -/
inductive Piece (l : Language) (m : Margin) : Text → Lead → Text → Margin → Prop
  | trivia {c : Char} {r : Text} {k : TriviaKind} {n : Nat}
      (shape : shape? l m.last c r = some (k, n)) :
    Piece l m (c :: r) (.trivia ⟨k, c :: r.take n⟩) (r.drop n) (after m ⟨k, c :: r.take n⟩)
  | directive {r : Text} (shape : shape? l m.last '#' r = none) (start : m.atLineStart = true) :
    Piece l m ('#' :: r) (.directive (directive l r).1) (directive l r).2
      { m with atLineStart := true, startsLine := true,
               last := ((directive l r).1.flatMap Word.source).getLast? }

theorem Piece.source {m m' : Margin} {s s' : Text} {p : Lead} (h : Piece l m s p s' m') :
    p.source ++ s' = s := by
  cases h with
  | trivia h => rw [Lead.source, List.cons_append, List.take_append_drop]
  | directive h hm => exact directive_source l _

/-- The trivia behind a token ends with a line break, or where none begins. -/
inductive TrailEnd (l : Language) (m : Margin) : Text → List Trivia → Text → Margin → Prop
  | lineBreak {c : Char} {r : Text} {n : Nat} (shape : shape? l m.last c r = some (.endOfLine, n)) :
    TrailEnd l m (c :: r) [⟨.endOfLine, c :: r.take n⟩] (r.drop n)
      (after m ⟨.endOfLine, c :: r.take n⟩)
  | stop {s : Text} (shape : ∀ c r, s = c :: r → shape? l m.last c r = none) :
    TrailEnd l m s [] s m

section

variable {I : List Lead → Margin → Text → Prop}

/-- What every cut of a piece within the line keeps, the trivia behind a token keeps up to where it
ends. -/
theorem trailing_parts
    (step : ∀ {ps m s p s' m'}, I ps m s → Piece l m s p s' m' → p.kind ≠ .endOfLine →
      I (ps ++ [p]) m' s')
    (ps : List Lead) (m : Margin) (s : Text) (h : I ps m s) :
    ∃ ts us m' s', (trailing l m s).pieces = ts ++ us ∧ I (ps ++ ts.map .trivia) m' s' ∧
      TrailEnd l m' s' us (trailing l m s).rest (trailing l m s).margin := by
  induction m, s using trailing.induct (l := l) generalizing ps with
  | case1 m =>
      rw [trailing.eq_def]
      exact ⟨[], [], m, [], rfl, by simpa using h, .stop fun _ _ h => by cases h⟩
  | case2 m c r hs =>
      rw [trailing.eq_def]
      simp only [hs]
      refine ⟨[], [], m, c :: r, rfl, by simpa using h, .stop fun c' r' he => ?_⟩
      obtain ⟨rfl, rfl⟩ := List.cons.inj he
      exact hs
  | case3 m c r n hs =>
      rw [trailing.eq_def]
      simp only [hs, if_true]
      exact ⟨[], _, m, c :: r, rfl, by simpa using h, .lineBreak hs⟩
  | case4 m c r k n hs t hk =>
      rename_i ih
      rw [trailing.eq_def]
      simp only [hs, hk, if_false]
      obtain ⟨ts, us, m', s', hp, hi, he⟩ := ih _ (step h (.trivia hs) hk)
      rw [List.append_assoc] at hi
      exact ⟨t :: ts, us, m', s', by rw [hp]; rfl, hi, he⟩

/-- What every cut of a piece keeps, the trivia behind a token keeps. -/
theorem trailing_cuts
    (step : ∀ {ps m s p s' m'}, I ps m s → Piece l m s p s' m' → I (ps ++ [p]) m' s')
    (ps : List Lead) (m : Margin) (s : Text) (h : I ps m s) :
    I (ps ++ (trailing l m s).pieces.map .trivia) (trailing l m s).margin
      (trailing l m s).rest := by
  obtain ⟨ts, us, m', s', hp, hi, he⟩ :=
    trailing_parts (l := l) (fun hi hp _ => step hi hp) ps m s h
  rw [hp, List.map_append, ← List.append_assoc]
  generalize (trailing l m s).rest = s'', (trailing l m s).margin = m'' at he
  cases he with
  | lineBreak hs => exact step hi (.trivia hs)
  | stop => simpa using hi

/-- What every cut of a piece keeps, the trivia in front of a token keeps. -/
theorem leading_cuts
    (step : ∀ {ps m s p s' m'}, I ps m s → Piece l m s p s' m' → I (ps ++ [p]) m' s')
    (ps : List Lead) (m : Margin) (s : Text) (h : I ps m s) :
    I (ps ++ (leading l m s).pieces) (leading l m s).margin (leading l m s).rest := by
  induction m, s using leading.induct (l := l) generalizing ps with
  | case1 m =>
      rw [leading.eq_def]
      simpa using h
  | case2 m c r k n hs t =>
      rename_i ih
      rw [leading.eq_def]
      simp only [hs]
      have hn := ih _ (step h (.trivia hs))
      rwa [List.append_assoc] at hn
  | case3 m c r hs hc d m' =>
      rename_i ih
      rw [leading.eq_def]
      simp only [hs, hc, if_true]
      simp only [Bool.and_eq_true, decide_eq_true_eq] at hc
      obtain ⟨rfl, hm⟩ := hc
      have hn := ih _ (step h (.directive hs hm))
      rwa [List.append_assoc] at hn
  | case4 m c r hs hc =>
      rw [leading.eq_def]
      simpa [hs, hc] using h

/-- What is true of every cut is true of all trivia in front of a token. -/
theorem forall_mem_leading {P : Lead → Prop} (piece : ∀ {m s p s' m'}, Piece l m s p s' m' → P p)
    (m : Margin) (s : Text) : ∀ p ∈ (leading l m s).pieces, P p :=
  leading_cuts (l := l) (I := fun ps _ _ => ∀ p ∈ ps, P p)
    (fun h hp => List.forall_mem_append.2 ⟨h, List.forall_mem_singleton.2 (piece hp)⟩)
    [] m s (List.forall_mem_nil _)

theorem forall_mem_trailing {P : Lead → Prop} (piece : ∀ {m s p s' m'}, Piece l m s p s' m' → P p)
    (m : Margin) (s : Text) : ∀ t ∈ (trailing l m s).pieces, P (.trivia t) := by
  have h := trailing_cuts (l := l) (I := fun ps _ _ => ∀ p ∈ ps, P p)
    (fun h hp => List.forall_mem_append.2 ⟨h, List.forall_mem_singleton.2 (piece hp)⟩)
    [] m s (List.forall_mem_nil _)
  exact fun t ht => h (.trivia t) (List.mem_map_of_mem ht)

end

end Gap

/-! ## Tokens -/

namespace LexemeSeq

variable {l : Language}

/-- All lexemes with the one at the end. -/
def all (q : LexemeSeq) : List Lexeme :=
  q.lexemes ++ [q.last]

/-- What every token keeps, with the trivia around it, the tokens of a text keep; and only trivia
stands before the end of the text. -/
theorem scan_cuts {I : List Lexeme → Margin → Text → Prop}
    (step : ∀ {xs m s c r}, I xs m s → (Gap.leading l { m with joined := false } s).rest = c :: r →
      I (xs ++ [atToken l (Gap.leading l { m with joined := false } s) c r])
        (trailOf l c r).margin (trailOf l c r).rest)
    (xs : List Lexeme) (m : Margin) (s : Text) (h : I xs m s) :
    ∃ m' s', I (xs ++ (scan l m s).lexemes) m' s' ∧
      (Gap.leading l { m' with joined := false } s').rest = [] ∧
        (scan l m s).last = atEnd (Gap.leading l { m' with joined := false } s') := by
  induction m, s using scan.induct (l := l) generalizing xs with
  | case1 m s lead =>
      rename_i hr
      rw [scan_of_end hr, List.append_nil]
      exact ⟨m, s, h, hr, rfl⟩
  | case2 m s lead c r =>
      rename_i hr ih
      obtain ⟨m', s', hi, he⟩ := ih _ (step h hr)
      rw [scan_of_token hr]
      rw [List.append_assoc] at hi
      exact ⟨m', s', hi, he⟩

/-- What is true of every token and of the end of every text is true of all lexemes. -/
theorem forall_mem_scan {P : Lexeme → Prop}
    (token : ∀ {m s c r}, (Gap.leading l m s).rest = c :: r → P (atToken l (Gap.leading l m s) c r))
    (last : ∀ {m s}, (Gap.leading l m s).rest = [] → P (atEnd (Gap.leading l m s)))
    (m : Margin) (s : Text) : ∀ x ∈ (scan l m s).all, P x := by
  obtain ⟨m', s', h, he, hl⟩ := scan_cuts (l := l) (I := fun xs _ _ => ∀ x ∈ xs, P x)
    (fun h hr => List.forall_mem_append.2 ⟨h, List.forall_mem_singleton.2 (token hr)⟩)
    [] m s (List.forall_mem_nil _)
  refine List.forall_mem_append.2 ⟨h, List.forall_mem_singleton.2 ?_⟩
  rw [hl]
  exact last he

/-- Neighbours are related if each token is to the lexeme that the scan finds behind it. -/
theorem isChain_scan_of {R : Lexeme → Lexeme → Prop}
    (next : ∀ {lead c r}, ∀ y ∈ (scan l (trailOf l c r).margin (trailOf l c r).rest).all.head?,
      R (atToken l lead c r) y)
    (m : Margin) (s : Text) : (scan l m s).all.IsChain R := by
  induction m, s using scan.induct (l := l) with
  | case1 m s lead h =>
      rw [scan_of_end h]
      exact .singleton _
  | case2 m s lead c r h ih =>
      rw [scan_of_token h]
      exact List.isChain_cons.2 ⟨next, ih⟩

end LexemeSeq

/-! ## Tokens where they stand -/

/-- Something is true of the token of a spot, given the text from the token on. -/
def Spot.Has (P : Text → Text → Lexeme → Prop) (whole : Text) (x : Spot) : Prop :=
  ∃ rest, whole = x.1 ++ rest ∧ P x.1 rest x.2

/-- `F` is true of a place in a text, given the text before it and the text behind it. -/
def Text.HoldsAt (F : Text → Text → Prop) (whole pre s : Text) : Prop :=
  whole = pre ++ s ∧ F pre s

/-- `F` is true of every place where the scanner cuts if it is true of the first one, and tells `P`
of every token that is cut off. -/
structure SpotInvariant (l : Language) (F : Text → Text → Prop)
    (P : Text → Text → Lexeme → Prop) : Prop where
  trivia : ∀ {pre last c r k n}, F pre (c :: r) → Gap.shape? l last c r = some (k, n) →
    F (pre ++ c :: r.take n) (r.drop n)
  word : ∀ {pre s w s'}, F pre s → Gap.WordCut l s w s' →
    P pre s (.ofWord w) ∧ F (pre ++ w.source) s'
  ends : ∀ {pre s pending s'}, F pre s → Gap.Ends s pending s' →
    P (pre ++ Trivia.sources pending) s' (.ofWord (Gap.endWord pending s')) ∧
      F (pre ++ (Gap.endWord pending s').source) (Gap.directiveEnd s').2
  token : ∀ {pre c r} lead, F pre (c :: r) → P pre (c :: r) (LexemeSeq.atToken l lead c r) ∧
    F (pre ++ c :: r.take (Shape.ofLanguage l c r).more) (r.drop (Shape.ofLanguage l c r).more)
  last : ∀ {pre} lead, F pre [] → P pre [] (LexemeSeq.atEnd lead)

theorem Text.HoldsAt.cut {F : Text → Text → Prop} {whole pre s t s' : Text}
    (h : HoldsAt F whole pre s) (hs : t ++ s' = s) (hf : F (pre ++ t) s') :
    HoldsAt F whole (pre ++ t) s' :=
  ⟨by rw [h.1, ← hs, List.append_assoc], hf⟩

namespace SpotInvariant

variable {l : Language} {F : Text → Text → Prop} {P : Text → Text → Lexeme → Prop}
  {whole pre s : Text}

theorem directive (h : SpotInvariant l F P) (hf : Text.HoldsAt F whole pre ('#' :: s)) :
    (∀ x ∈ Word.spots pre (Gap.directive l s).1, x.Has P whole) ∧
      Text.HoldsAt F whole (pre ++ (Gap.directive l s).1.flatMap Word.source)
        (Gap.directive l s).2 := by
  obtain ⟨ws, s', pending, s'', ⟨hw, hs⟩, he, hd⟩ := Gap.directive_cuts (l := l)
    (I := fun ws t => (∀ x ∈ Word.spots pre ws, x.Has P whole) ∧
      Text.HoldsAt F whole (pre ++ ws.flatMap Word.source) t)
    (fun {ws t w t'} ⟨hw, ht⟩ hc => by
      obtain ⟨hp, hn⟩ := h.word ht.2 hc
      rw [Word.spots_append, List.flatMap_append, List.flatMap_singleton, ← List.append_assoc]
      refine ⟨List.forall_mem_append.2 ⟨hw, List.forall_mem_singleton.2 ⟨t, ?_, ?_⟩⟩,
        ht.cut hc.source hn⟩
      · rw [hc.leading, Trivia.sources_nil, List.append_nil]
        exact ht.1
      · rw [hc.leading, Trivia.sources_nil, List.append_nil]
        exact hp)
    [] s ⟨List.forall_mem_nil _, by rwa [List.flatMap_nil, List.append_nil]⟩
  obtain ⟨hp, hn⟩ := h.ends hs.2 he
  rw [hd, Word.spots_append, List.flatMap_append, List.flatMap_singleton, ← List.append_assoc]
  refine ⟨List.forall_mem_append.2 ⟨hw, List.forall_mem_singleton.2 ⟨s'', ?_, hp⟩⟩,
    hs.cut he.source_endWord hn⟩
  rw [hs.1, ← he.source, ← List.append_assoc]
  rfl

theorem piece (h : SpotInvariant l F P) {m m' : Margin} {p : Lead} {s' : Text}
    (hp : Gap.Piece l m s p s' m') (hf : Text.HoldsAt F whole pre s) :
    (∀ x ∈ Word.spots pre p.words, x.Has P whole) ∧ Text.HoldsAt F whole (pre ++ p.source) s' := by
  cases hp with
  | trivia hs =>
      have hp := Gap.Piece.trivia (l := l) hs
      exact ⟨List.forall_mem_nil _, hf.cut hp.source (h.trivia hf.2 hs)⟩
  | directive => exact h.directive hf

theorem leading (h : SpotInvariant l F P) {m : Margin} (hf : Text.HoldsAt F whole pre s) :
    (∀ x ∈ Lead.spots pre (Gap.leading l m s).pieces, x.Has P whole) ∧
      Text.HoldsAt F whole (pre ++ Lead.sources (Gap.leading l m s).pieces)
        (Gap.leading l m s).rest := by
  refine Gap.leading_cuts (l := l)
    (I := fun ps _ t => (∀ x ∈ Lead.spots pre ps, x.Has P whole) ∧
      Text.HoldsAt F whole (pre ++ Lead.sources ps) t)
    (fun ⟨hw, ht⟩ hp => ?_) [] m s
    ⟨List.forall_mem_nil _, by rwa [Lead.sources_nil, List.append_nil]⟩
  obtain ⟨hp, hn⟩ := h.piece hp ht
  rw [Lead.spots_append, Lead.sources_append, Lead.sources_singleton, ← List.append_assoc]
  refine ⟨List.forall_mem_append.2 ⟨hw, ?_⟩, hn⟩
  exact Lead.forall_spots_cons.2 ⟨hp, List.forall_mem_nil _⟩

theorem trailing (h : SpotInvariant l F P) {m : Margin} (hf : Text.HoldsAt F whole pre s) :
    Text.HoldsAt F whole (pre ++ Trivia.sources (Gap.trailing l m s).pieces)
      (Gap.trailing l m s).rest := by
  rw [← Lead.sources_trivia]
  refine Gap.trailing_cuts (l := l)
    (I := fun ps _ t => Text.HoldsAt F whole (pre ++ Lead.sources ps) t)
    (fun ht hp => ?_) [] m s (by rwa [Lead.sources_nil, List.append_nil])
  rw [Lead.sources_append, Lead.sources_singleton, ← List.append_assoc]
  exact (h.piece hp ht).2

/-- It tells of every token of a text. -/
theorem scan (h : SpotInvariant l F P) {m : Margin} (hf : F pre s) :
    ∀ x ∈ Lexeme.spots pre (LexemeSeq.scan l m s).all, x.Has P (pre ++ s) := by
  obtain ⟨m', s', ⟨hx, hs⟩, he, hl⟩ := LexemeSeq.scan_cuts (l := l)
    (I := fun xs _ t => (∀ x ∈ Lexeme.spots pre xs, x.Has P (pre ++ s)) ∧
      Text.HoldsAt F (pre ++ s) (pre ++ Lexeme.sources xs) t)
    (fun {xs m t c r} ⟨hx, ht⟩ hr => by
      obtain ⟨hw, hlead⟩ := h.leading (m := { m with joined := false }) ht
      rw [hr] at hlead
      obtain ⟨hp, hn⟩ := h.token (Gap.leading l { m with joined := false } t) hlead.2
      have htoken := hlead.cut (by rw [List.cons_append, List.take_append_drop]) hn
      have htrail := h.trailing
        (m := LexemeSeq.afterToken (c :: r.take (Shape.ofLanguage l c r).more)) htoken
      rw [Lexeme.spots_append, Lexeme.sources_append, ← List.append_assoc]
      refine ⟨List.forall_mem_append.2 ⟨hx, Lexeme.forall_spots_cons.2
        ⟨hw, ⟨c :: r, hlead.1, hp⟩, List.forall_mem_nil _⟩⟩, ?_⟩
      rw [Lexeme.sources_singleton, Lexeme.source, ← List.append_assoc, ← List.append_assoc]
      exact htrail)
    [] m s ⟨List.forall_mem_nil _, by rw [Lexeme.sources_nil, List.append_nil]; exact ⟨rfl, hf⟩⟩
  obtain ⟨hw, hlead⟩ := h.leading (m := { m' with joined := false }) hs
  rw [he] at hlead
  rw [LexemeSeq.all, Lexeme.spots_append, hl]
  exact List.forall_mem_append.2 ⟨hx, Lexeme.forall_spots_cons.2
    ⟨hw, ⟨[], hlead.1, h.last _ hlead.2⟩, List.forall_mem_nil _⟩⟩

end SpotInvariant

end Xref
