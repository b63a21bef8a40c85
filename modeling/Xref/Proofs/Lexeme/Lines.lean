import Mathlib.Data.List.Infix
import Xref.Proofs.Lexeme.Boundary
import Xref.Proofs.Lexeme.Cuts

/-!
# A directive is a line

A directive goes up to the end of its line: none of its parts takes a line break, and the one that
follows them ends it. Its words are the parts to look at. They are told by the same scanners as
tokens, and each scanner decides for itself whether to stop at a line break. All of them do but one.
A C# literal with a sign in front of its quote goes on over line breaks to the closing quote, or to
the end of the text where none closes it, and takes the directive with it.

So a directive is a line exactly if its verbatim literals are (`Gap.isLine_directive`), and always
is one in Visual Basic, which has no such literals.
-/

namespace Xref

open Identifier

namespace Text

/-- No character ends a line. -/
def Unbroken (t : Text) : Prop :=
  ∀ c ∈ t, isLineBreak c = false

/-- What may end a line. -/
def breaks : List Text :=
  [[], ['\n'], ['\r'], ['\r', '\n']]

/-- A part of one line, with the line break that ends it or without. -/
def IsLine (t : Text) : Prop :=
  ∃ line, ∃ close ∈ breaks, t = line ++ close ∧ Unbroken line

variable {t u : Text} {c : Char}

theorem unbroken_nil : Unbroken [] :=
  List.forall_mem_nil _

theorem Unbroken.cons (hc : isLineBreak c = false) (h : Unbroken t) : Unbroken (c :: t) :=
  List.forall_mem_cons.2 ⟨hc, h⟩

theorem Unbroken.append (h : Unbroken t) (hu : Unbroken u) : Unbroken (t ++ u) :=
  List.forall_mem_append.2 ⟨h, hu⟩

theorem Unbroken.takeWhile {p : Char → Bool} (hp : ∀ c, p c = true → isLineBreak c = false) :
    Unbroken (t.takeWhile p) :=
  fun c hc => hp c (List.all_eq_true.1 List.all_takeWhile c hc)

theorem unbroken_of_isPart (h : ∀ c ∈ t, isPart c = true) : Unbroken t := by
  intro c hc
  rw [Bool.eq_false_iff]
  intro hb
  have hp := h c hc
  rw [Unicode.isPart_of_isLineBreak hb] at hp
  cases hp

theorem Unbroken.isLine (h : Unbroken t) : t.IsLine :=
  ⟨t, [], List.mem_cons_self, (List.append_nil t).symm, h⟩

theorem IsLine.append (h : Unbroken t) (hu : u.IsLine) : IsLine (t ++ u) := by
  obtain ⟨line, close, hc, rfl, hl⟩ := hu
  exact ⟨t ++ line, close, hc, (List.append_assoc _ _ _).symm, h.append hl⟩

theorem IsLine.left (h : IsLine (t ++ u)) : t.IsLine := by
  obtain ⟨line, close, hc, ht, hl⟩ := h
  rcases List.append_eq_append_iff.1 ht with ⟨v, rfl, rfl⟩ | ⟨v, rfl, rfl⟩
  · exact Unbroken.isLine fun c hc => hl c (List.mem_append_left _ hc)
  · refine ⟨line, v, ?_, rfl, hl⟩
    have hp : ∀ b ∈ breaks, ∀ v ∈ b.inits, v ∈ breaks := by decide
    exact hp _ hc v ((List.mem_inits _ _).2 (List.prefix_append _ _))

theorem IsLine.right (h : IsLine (t ++ u)) : u.IsLine := by
  obtain ⟨line, close, hc, ht, hl⟩ := h
  rcases List.append_eq_append_iff.1 ht with ⟨v, rfl, rfl⟩ | ⟨v, rfl, rfl⟩
  · exact ⟨v, close, hc, rfl, fun c hc => hl c (List.mem_append_right _ hc)⟩
  · have hp : ∀ b ∈ breaks, ∀ v ∈ b.tails, v ∈ breaks := by decide
    exact ⟨[], u, hp _ hc u ((List.mem_tails _ _).2 (List.suffix_append _ _)), rfl, unbroken_nil⟩

theorem IsLine.part (h : t.IsLine) (hu : u <:+: t) : u.IsLine := by
  obtain ⟨v, w, rfl⟩ := hu
  exact h.left.right

/-- A line that does not end with a line break has none. -/
theorem IsLine.unbroken (h : t.IsLine) (hc : c ∈ t.getLast?) (hb : isLineBreak c = false) :
    t.Unbroken := by
  obtain ⟨line, close, hm, rfl, hl⟩ := h
  have hp : ∀ b ∈ breaks, b = [] ∨ b.getLast?.any isLineBreak = true := by decide
  rcases hp close hm with rfl | hd
  · rwa [List.append_nil]
  · obtain ⟨d, hd, hdb⟩ := (Option.any_eq_true _ _).1 hd
    rw [List.getLast?_append, hd] at hc
    obtain rfl := Option.some.inj hc
    rw [hdb] at hb
    cases hb

theorem Unbroken.take_cons {n : Nat} (hc : isLineBreak c = false) (h : Unbroken (t.take n)) :
    Unbroken ((c :: t).take (n + 1)) := by
  rw [List.take_succ_cons]
  exact h.cons hc

theorem Unbroken.take_add {k n : Nat} (h : Unbroken (t.take k))
    (h' : Unbroken ((t.drop k).take n)) : Unbroken (t.take (k + n)) := by
  rw [List.take_add]
  exact h.append h'

end Text

open Text

namespace Shape

/-! ## Strings and numbers -/

theorem unbroken_quotedLength (q : Char) (s : Text) : Unbroken (s.take (quotedLength q s)) := by
  induction s using quotedLength.induct (q := q) with
  | case1 => exact unbroken_nil
  | case2 c h =>
      rw [quotedLength, if_pos h]
      exact unbroken_nil
  | case3 c h =>
      rw [quotedLength, if_neg h]
      exact unbroken_nil.cons (Bool.eq_false_iff.2 h)
  | case4 c d r h =>
      rw [quotedLength, if_pos h]
      exact unbroken_nil
  | case5 d r h h' =>
      rw [quotedLength, if_neg h', if_pos rfl, if_pos h]
      exact unbroken_nil.cons (Bool.eq_false_iff.2 h')
  | case6 d r h h' ih =>
      rw [quotedLength, if_neg h', if_pos rfl, if_neg h, Nat.add_comm]
      exact (ih.take_cons (Bool.eq_false_iff.2 h)).take_cons (Bool.eq_false_iff.2 h')
  | case7 d r h h' =>
      rw [quotedLength, if_neg h, if_neg h', if_pos rfl]
      exact unbroken_nil.cons (Bool.eq_false_iff.2 h)
  | case8 c d r h h' h'' ih =>
      rw [quotedLength, if_neg h, if_neg h', if_neg h'', Nat.add_comm]
      exact ih.take_cons (Bool.eq_false_iff.2 h)

theorem unbroken_basicLiteral (s : Text) : Unbroken (s.take (basicLiteral s).1) := by
  induction s using basicLiteral.induct with
  | case1 => exact unbroken_nil
  | case2 c =>
      rw [basicLiteral]
      split
      · exact unbroken_nil
      · next h => exact unbroken_nil.cons (Bool.eq_false_iff.2 h)
  | case3 c d r h =>
      rw [basicLiteral, if_pos h]
      exact unbroken_nil
  | case4 r n k hb h ih =>
      rw [basicLiteral, if_neg h, if_pos rfl, if_pos rfl, hb]
      rw [hb] at ih
      show Unbroken (List.take (2 + n) _)
      rw [Nat.add_comm]
      exact (ih.take_cons rfl).take_cons rfl
  | case5 d r h h' h'' =>
      rw [basicLiteral, if_neg h'', if_pos rfl, if_neg h, if_pos h']
      simp only [Bool.and_eq_true, Bool.or_eq_true, decide_eq_true_eq] at h'
      refine unbroken_nil.cons ?_ |>.cons rfl
      rcases h'.1 with rfl | rfl <;> rfl
  | case6 d r h h' h'' =>
      rw [basicLiteral, if_neg h'', if_pos rfl, if_neg h, if_neg h']
      exact unbroken_nil.cons rfl
  | case7 c d r h h' n k hb ih =>
      rw [basicLiteral, if_neg h, if_neg h', hb]
      rw [hb] at ih
      show Unbroken (List.take (1 + n) _)
      rw [Nat.add_comm]
      exact ih.take_cons (Bool.eq_false_iff.2 h)

theorem isLineBreak_of_isPart {c : Char} (h : isPart c = true) : isLineBreak c = false :=
  unbroken_of_isPart (t := [c]) (List.forall_mem_singleton.2 h) c List.mem_cons_self

theorem unbroken_numberLength (s : Text) : Unbroken (s.take (numberLength s)) := by
  induction s with
  | nil => exact unbroken_nil
  | cons c r ih =>
      rw [numberLength]
      split
      · next h =>
          rw [Nat.add_comm]
          refine ih.take_cons ?_
          simp only [Bool.or_eq_true, Bool.and_eq_true, decide_eq_true_eq] at h
          rcases h with h | ⟨rfl, -⟩
          · exact isLineBreak_of_isPart h
          · rfl
      · exact unbroken_nil

/-- A literal with a sign in front of its quote ends with a quote or where the text does. -/
theorem getLast?_verbatimLength (s : Text) :
    '"' ∈ (s.take (verbatimLength s)).getLast? ∨ s.drop (verbatimLength s) = [] := by
  induction s using verbatimLength.induct with
  | case1 => exact .inr rfl
  | case2 c => exact .inr rfl
  | case3 r ih =>
      rw [verbatimLength, if_pos rfl, if_pos rfl, Nat.add_comm]
      refine ih.imp_left fun h => ?_
      rw [List.take_succ_cons, List.take_succ_cons, List.getLast?_cons, List.getLast?_cons, h]
      rfl
  | case4 d r h =>
      rw [verbatimLength, if_pos rfl, if_neg h]
      exact .inl rfl
  | case5 c d r h ih =>
      rw [verbatimLength, if_neg h, Nat.add_comm]
      refine ih.imp_left fun h => ?_
      rw [List.take_succ_cons, List.getLast?_cons, h]
      rfl

/-! ## Names -/

theorem isLineBreak_of_isHexDigit {c : Char} (h : isHexDigit c = true) :
    isLineBreak c = false := by
  rw [Bool.eq_false_iff]
  intro hb
  simp only [isLineBreak, Bool.or_eq_true, beq_iff_eq] at hb
  rcases hb with rfl | rfl <;> cases h

theorem unbroken_hexChar? {n : Nat} {s : Text} {c : Char} (h : hexChar? n s = some c) :
    Unbroken (s.take n) := by
  simp only [hexChar?, Option.ite_none_right_eq_some, Bool.and_eq_true, List.all_eq_true] at h
  exact fun d hd => isLineBreak_of_isHexDigit (h.1.1.2 d hd)

theorem unbroken_escape? {r : Text} {u : Char × Nat} (h : escape? r = some u) :
    Unbroken (r.take u.2) := by
  unfold escape? at h
  split at h
  · obtain ⟨x, hx, rfl⟩ := Option.map_eq_some_iff.1 h
    exact (unbroken_hexChar? hx).take_cons rfl
  · obtain ⟨x, hx, rfl⟩ := Option.map_eq_some_iff.1 h
    exact (unbroken_hexChar? hx).take_cons rfl
  · cases h

/-- The spelling of a character of a name is on one line, if the characters that `ok` lets stand for
themselves are. -/
theorem unbroken_spelled? {ok : Char → Bool} (hok : ∀ c, ok c = true → isLineBreak c = false)
    {c : Char} {r : Text} {u : Char × Nat} (h : spelled? ok c r = some u) :
    isLineBreak c = false ∧ Unbroken (r.take u.2) := by
  unfold spelled? at h
  split at h
  · next hc =>
      rw [hc]
      exact ⟨rfl, unbroken_escape? (Option.filter_eq_some_iff.1 h).1⟩
  split at h
  · next hc =>
      obtain rfl := Option.some.inj h
      exact ⟨hok c hc, unbroken_nil⟩
  · cases h

theorem unbroken_spellings {ok : Char → Bool} (hok : ∀ c, ok c = true → isLineBreak c = false)
    (s : Text) : Unbroken (s.take (spelledLength (spellings ok s))) := by
  induction ok, s using spellings.induct with
  | case1 ok =>
      rw [List.take_nil]
      exact unbroken_nil
  | case2 ok c r h =>
      rw [spellings_of_none h]
      exact unbroken_nil
  | case3 ok c r u h ih =>
      obtain ⟨hc, hr⟩ := unbroken_spelled? hok h
      rw [spellings_of_some h, spelledLength, Nat.add_right_comm]
      exact (hr.take_add (ih fun _ => isLineBreak_of_isPart)).take_cons hc

theorem isLineBreak_of_isStart {c : Char} (h : isStart c = true) : isLineBreak c = false :=
  isLineBreak_of_isPart (isPart_of_isStart h)

/-! ## Marks -/

theorem unbroken_mark (l : Language) {c : Char} (r : Text) (hc : isLineBreak c = false) :
    Unbroken ((c :: r).take ((mark l c r).more + 1)) := by
  have hall : ∀ op ∈ operators l, (op.all fun d => !isLineBreak d) = true := by
    cases l <;> decide
  unfold mark
  split
  · next op hop =>
      have hpre : op.isPrefixOf (c :: r) = true :=
        List.find?_some (p := fun x : Text => x.isPrefixOf (c :: r)) hop
      obtain ⟨t, ht⟩ := List.isPrefixOf_iff_prefix.1 hpre
      have hm := List.mem_of_find?_eq_some hop
      have hl : op.length - 1 + 1 = op.length :=
        Nat.sub_add_cancel (List.length_pos_iff.2 (endsAt_operator l op hm).1)
      rw [hl, ← ht, List.take_left]
      exact fun d hd => by simpa using List.all_eq_true.1 (hall op hm) d hd
  · exact unbroken_nil.cons hc

/-! ## Tokens -/

/-- How literals begin that line breaks do not end. -/
def verbatimSigns : List Text :=
  [['@', '"'], ['@', '$', '"'], ['$', '@', '"']]

/-- The text begins as such a literal does. Visual Basic has none. -/
def IsVerbatim (l : Language) (t : Text) : Prop :=
  l = .csharp ∧ ∃ sign ∈ verbatimSigns, sign <+: t

/-- A literal that line breaks do not end, with nothing behind it unless it is closed. -/
def TakesLines (t rest : Text) : Prop :=
  IsVerbatim .csharp t ∧ ('"' ∈ t.getLast? ∨ rest = [])

theorem takesLines_of_sign {c : Char} {r : Text} {k : Nat}
    (hs : c :: r.take k ∈ verbatimSigns) :
    TakesLines (c :: r.take (k + verbatimLength (r.drop k)))
      (r.drop (k + verbatimLength (r.drop k))) := by
  rw [List.take_add, ← List.cons_append, ← List.drop_drop]
  refine ⟨⟨rfl, _, hs, List.prefix_append _ _⟩, ?_⟩
  refine (getLast?_verbatimLength (r.drop k)).imp_left fun h => ?_
  rw [List.getLast?_append, h]
  rfl

theorem unbroken_csharp {c : Char} (r : Text) (hc : isLineBreak c = false) :
    Unbroken (c :: r.take (csharp c r).more) ∨
      TakesLines (c :: r.take (csharp c r).more) (r.drop (csharp c r).more) := by
  have hstart : ∀ c, isStart c = true → isLineBreak c = false := fun _ => isLineBreak_of_isStart
  have hpart : ∀ c, isPart c = true → isLineBreak c = false := fun _ => isLineBreak_of_isPart
  unfold csharp
  split
  · next h =>
      simp only [Bool.and_eq_true, decide_eq_true_eq] at h
      obtain ⟨t, rfl⟩ := List.head?_eq_some_iff.1 h.2
      rw [h.1]
      exact .inr (takesLines_of_sign (k := 1) List.mem_cons_self)
  split
  · next h =>
      simp only [Bool.and_eq_true, decide_eq_true_eq] at h
      exact .inr (takesLines_of_sign (by rw [h.1, h.2]; decide))
  split
  · exact .inl ((unbroken_spellings hstart r).cons hc)
  split
  · next h =>
      simp only [Bool.and_eq_true, decide_eq_true_eq] at h
      obtain ⟨t, rfl⟩ := List.head?_eq_some_iff.1 h.2
      refine .inl (Unbroken.cons hc ?_)
      exact Unbroken.take_add (k := 1) (unbroken_nil.cons rfl) (unbroken_quotedLength _ _)
  split
  · next h =>
      simp only [Bool.and_eq_true, decide_eq_true_eq] at h
      exact .inr (takesLines_of_sign (by rw [h.1, h.2]; decide))
  split
  · exact .inl ((unbroken_quotedLength _ r).cons hc)
  split
  · exact .inl ((unbroken_quotedLength _ r).cons hc)
  split
  · next u hu =>
      have h : Unbroken (r.take (u.2 + spelledLength (spellings isPart (r.drop u.2)))) :=
        (unbroken_spelled? hstart hu).2.take_add (unbroken_spellings hpart _)
      dsimp only
      split
      · exact .inl (h.cons hc)
      · exact .inl (h.cons hc)
  · split
    · exact .inl ((unbroken_numberLength r).cons hc)
    · exact .inl (unbroken_mark .csharp r hc)

theorem unbroken_visualBasic {c : Char} (r : Text) (hc : isLineBreak c = false) :
    Unbroken (c :: r.take (visualBasic c r).more) := by
  rw [← List.take_succ_cons]
  unfold visualBasic
  have hw : Unbroken (r.takeWhile isPart) := Unbroken.takeWhile fun _ => isLineBreak_of_isPart
  split
  · next h =>
      simp only [Bool.and_eq_true, decide_eq_true_eq] at h
      refine Unbroken.take_cons hc ?_
      obtain ⟨t, ht⟩ := List.head?_eq_some_iff.1 h.2
      refine Unbroken.take_add ?_ ?_
      · rwa [take_length_takeWhile]
      · rw [drop_length_takeWhile, ht]
        exact unbroken_nil.cons rfl
  split
  · exact (unbroken_basicLiteral r).take_cons hc
  split
  · refine Unbroken.take_cons hc ?_
    show Unbroken (r.take (r.takeWhile isPart).length)
    rwa [take_length_takeWhile]
  split
  · exact (unbroken_numberLength r).take_cons hc
  · exact unbroken_mark .visualBasic r hc

/-- The text of a token is on one line, unless it is a literal that takes lines. -/
theorem unbroken_ofLanguage (l : Language) {c : Char} (r : Text) (hc : isLineBreak c = false) :
    Unbroken (c :: r.take (ofLanguage l c r).more) ∨
      l = .csharp ∧ TakesLines (c :: r.take (ofLanguage l c r).more)
        (r.drop (ofLanguage l c r).more) := by
  cases l with
  | csharp => exact (unbroken_csharp r hc).imp_right (⟨rfl, ·⟩)
  | visualBasic => exact .inl (unbroken_visualBasic r hc)

end Shape

open Shape

/-! ## Directives -/

theorem Word.infix_flatMap {w : Word} {ws : List Word} (h : w ∈ ws) :
    w.text <:+: ws.flatMap source := by
  obtain ⟨us, vs, rfl⟩ := List.append_of_mem h
  rw [List.flatMap_append, List.flatMap_cons]
  refine ⟨us.flatMap source ++ Trivia.sources w.leading,
    Trivia.sources w.trailing ++ vs.flatMap source, ?_⟩
  simp only [source, List.append_assoc]

namespace Gap

theorem unbroken_inLine (s : Text) : Unbroken (s.takeWhile inLine) :=
  Unbroken.takeWhile fun c hc => by simpa [inLine] using hc

theorem unbroken_blanks (s : Text) : Unbroken (Trivia.sources (blanks s)) := by
  have h : Unbroken (s.takeWhile isBlank) :=
    Unbroken.takeWhile fun c hc => by simp only [isBlank, Bool.and_eq_true] at hc; simpa using hc.1
  unfold blanks
  split
  · exact unbroken_nil
  · rwa [Trivia.sources, List.flatMap_cons, List.flatMap_nil, List.append_nil]

theorem isLine_directiveEnd (s : Text) : IsLine (Trivia.sources (directiveEnd s).1) := by
  unfold directiveEnd
  split
  · exact unbroken_nil.isLine
  split
  · next c r hc =>
      show IsLine (c :: r.take (lineBreakMore c r) ++ [])
      rw [List.append_nil]
      refine ⟨[], _, ?_, rfl, unbroken_nil⟩
      simp only [isLineBreak, Bool.or_eq_true, beq_iff_eq] at hc
      rcases hc with rfl | rfl
      · exact List.mem_of_getElem? (i := 1) rfl
      · unfold lineBreakMore
        split
        · next h =>
            rw [Bool.and_eq_true, decide_eq_true_eq, decide_eq_true_eq] at h
            obtain ⟨t, rfl⟩ := List.head?_eq_some_iff.1 h.2
            exact List.mem_of_getElem? (i := 3) rfl
        · exact List.mem_of_getElem? (i := 2) rfl
  · exact unbroken_nil.isLine

variable {l : Language} {ws : List Word} {w : Word} {s s' : Text}

/-- The words up to here are on one line, unless the last one is a literal that is not closed, if
the literals among them are lines. -/
def LineTo (l : Language) (ws : List Word) (s : Text) : Prop :=
  (∀ w ∈ ws, IsVerbatim l w.text → w.text.IsLine) →
    Unbroken (ws.flatMap Word.source) ∨ IsLine (ws.flatMap Word.source) ∧ s = []

/-- A word is on one line, unless it is a literal that is not closed. -/
theorem WordCut.unbroken (h : WordCut l s w s') (hw : IsVerbatim l w.text → w.text.IsLine) :
    Unbroken w.source ∨ IsLine w.source ∧ s' = [] := by
  rw [Word.source, h.leading, Trivia.sources_nil, List.nil_append]
  cases h with
  | hash s => exact .inl ((unbroken_nil.cons rfl).append (unbroken_blanks s))
  | @name c r k hc hk =>
      have hp : ∀ d, Unicode.isAlphanumeric d = true → isLineBreak d = false :=
        fun d hd => isLineBreak_of_isPart (by rw [isPart, hd, Bool.or_true])
      have hn : Unbroken (c :: r.takeWhile Unicode.isAlphanumeric) :=
        (Unbroken.takeWhile hp).cons (hp c (Unicode.isAlphanumeric_of_isAlphabetic hc))
      exact .inl (hn.append (unbroken_blanks _))
  | @word c r hc =>
      rcases unbroken_ofLanguage l r hc with ht | ⟨rfl, hv, hq | hr⟩
      · exact .inl (ht.append (unbroken_blanks _))
      · exact .inl (((hw hv).unbroken hq rfl).append (unbroken_blanks _))
      · -- the literal is not closed, so it is the end of the text
        right
        show IsLine (c :: r.take _ ++ Trivia.sources (blanks (r.drop _))) ∧ afterBlanks _ = []
        rw [hr]
        exact ⟨(List.append_nil _).symm ▸ hw hv, rfl⟩

theorem LineTo.word (h : LineTo l ws s) (hw : WordCut l s w s') : LineTo l (ws ++ [w]) s' := by
  intro hv
  obtain ⟨hws, hw'⟩ := List.forall_mem_append.1 hv
  rw [List.flatMap_append, List.flatMap_singleton]
  rcases h hws with ht | ⟨-, rfl⟩
  · exact (hw.unbroken (List.forall_mem_singleton.1 hw')).imp ht.append
      fun h => ⟨.append ht h.1, h.2⟩
  · cases hw

theorem Ends.isLine {pending : List Trivia} (h : Ends s pending s') :
    IsLine (endWord pending s').source := by
  have hp : Unbroken (Trivia.sources pending) := by
    cases h with
    | bare => exact unbroken_nil
    | behind _ s =>
        rw [Trivia.sources, List.flatMap_singleton]
        exact unbroken_inLine s
  show IsLine (Trivia.sources pending ++ [] ++ Trivia.sources (directiveEnd s').1)
  rw [List.append_nil]
  exact .append hp (isLine_directiveEnd s')

/-- A directive is a line exactly if its verbatim literals are. -/
theorem isLine_directive (l : Language) (s : Text) :
    IsLine ((directive l s).1.flatMap Word.source) ↔
      ∀ w ∈ (directive l s).1, IsVerbatim l w.text → w.text.IsLine := by
  constructor
  · intro h w hw _
    exact h.part (Word.infix_flatMap hw)
  · obtain ⟨ws, s', pending, s'', h, he, hd⟩ := directive_cuts (I := LineTo l)
      LineTo.word [] s fun _ => .inl unbroken_nil
    rw [hd, List.flatMap_append, List.flatMap_singleton]
    intro hv
    rcases h fun w hw => hv w (List.mem_append_left _ hw) with ht | ⟨ht, rfl⟩
    · exact .append ht he.isLine
    · rw [(List.append_eq_nil_iff.1 he.source_endWord).1]
      exact (List.append_nil _).symm ▸ ht

theorem exists_of_mem_leading {m : Margin} (h : .directive ws ∈ (leading l m s).pieces) :
    ∃ r, ws = (directive l r).1 := by
  refine forall_mem_leading (l := l) (P := fun p => ∀ ws, p = .directive ws →
    ∃ r, ws = (directive l r).1) (fun hp ws he => ?_) m s _ h ws rfl
  cases hp with
  | trivia => cases he
  | directive => exact ⟨_, (Lead.directive.inj he).symm⟩

end Gap

namespace LexemeSeq

theorem exists_of_mem_scan {l : Language} {m : Margin} {s : Text} {x : Lexeme} {ws : List Word}
    (hx : x ∈ (scan l m s).all) (h : .directive ws ∈ x.leading) :
    ∃ r, ws = (Gap.directive l r).1 :=
  forall_mem_scan (P := fun x => ∀ ws, .directive ws ∈ x.leading → ∃ r, ws = (Gap.directive l r).1)
    (fun _ _ => Gap.exists_of_mem_leading) (fun _ _ => Gap.exists_of_mem_leading) m s x hx ws h

/-- A directive of a text is a line exactly if its verbatim literals are. -/
theorem isLine_of_mem_ofText {l : Language} {s : Text} {x : Lexeme} {ws : List Word}
    (hx : x ∈ (ofText l s).all) (h : .directive ws ∈ x.leading) :
    IsLine (ws.flatMap Word.source) ↔ ∀ w ∈ ws, IsVerbatim l w.text → w.text.IsLine := by
  obtain ⟨r, rfl⟩ := exists_of_mem_scan hx h
  exact Gap.isLine_directive l r

end LexemeSeq

end Xref
