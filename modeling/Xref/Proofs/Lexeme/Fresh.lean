import Xref.Proofs.Lexeme.Boundary
import Xref.Proofs.Lexeme.Cuts

/-!
# No name reaches a token from the left

A name found in the text by its characters alone could begin before a token and end inside it. That
it never does rests on where the text is cut: the characters before a token that continue names
include none that begins one. `Fresh` says so, with the one exception that the grammar has. The name
of a directive ends before an underscore, which no other name does, so an underscore may follow
letters there; but then the letters hold no underscore, and a name cannot begin with one character
and its copy inside begin with another.

Every cut of the scanner keeps `Fresh`, be it through trivia, a directive or a token
(`spotInvariant_fresh`), and so every token stands where it holds (`LexemeSeq.stands_ofText`).
-/

namespace Xref

open Identifier

/-- The characters to the left of a point that continue names, the nearest first. -/
def trailingRun (pre : Text) : Text :=
  pre.reverse.takeWhile isPart

/-- No name begins in the run to the left and goes on to the right, unless the right begins with an
underscore and the run has none. -/
def Fresh (pre rest : Text) : Prop :=
  ∀ d ∈ rest.head?, isPart d = true → ∀ c ∈ trailingRun pre, isStart c = true → d = '_' ∧ c ≠ '_'

namespace Fresh

variable {pre s : Text} {n : Nat} {c : Char}

theorem of_head (h : ∀ d ∈ s.head?, isPart d = false) : Fresh pre s := by
  intro d hd hp
  rw [h d hd] at hp
  cases hp

theorem of_last {x : Text} (h : c ∈ x.getLast?) (hc : isPart c = false) : Fresh (pre ++ x) s := by
  have hr : trailingRun (pre ++ x) = [] := by
    obtain ⟨y, rfl⟩ := List.getLast?_eq_some_iff.1 h
    rw [trailingRun, List.reverse_append, List.reverse_append, List.append_assoc]
    exact List.takeWhile_cons_of_neg (by rw [hc]; exact Bool.false_ne_true)
  intro d _ _ e he
  rw [hr] at he
  cases he

theorem done (pre : Text) : Fresh pre [] :=
  of_head fun _ h => by cases h

theorem start (s : Text) : Fresh [] s :=
  fun _ _ _ _ hc => by cases hc

theorem of_endsAt (h : EndsAt s n) : Fresh (pre ++ s.take n) (s.drop n) := by
  rcases h with h | ⟨c, hc, hp⟩
  · exact of_head h
  · exact of_last hc hp

theorem single (h : Fresh pre (c :: s)) (hc : isStart c = false) : Fresh (pre ++ [c]) s := by
  by_cases hp : isPart c = true
  · intro d hd hpd e he hs
    rw [trailingRun, List.reverse_append] at he
    rcases List.mem_cons.1 (List.takeWhile_cons_of_pos hp ▸ he) with rfl | he
    · rw [hc] at hs
      cases hs
    · -- the character would be an underscore, which begins names
      obtain ⟨rfl, -⟩ := h c rfl hp e he hs
      cases hc
  · exact of_last rfl (Bool.eq_false_iff.2 hp)

end Fresh

/-! ## Trivia -/

namespace Gap

theorem endsAt_inLine (r : Text) : EndsAt r (r.takeWhile inLine).length :=
  EndsAt.takeWhile fun d hd => Unicode.isPart_of_isLineBreak (by simpa [inLine] using hd)

theorem endsAt_isBlank {c : Char} (h : isBlank c = true) (r : Text) :
    EndsAt (c :: r) ((r.takeWhile isBlank).length + 1) := by
  induction r generalizing c with
  | nil => exact .single (Unicode.isPart_of_isBlank h)
  | cons d r ih =>
      rw [List.takeWhile_cons]
      split
      · next hd => exact (ih hd).cons
      · exact .single (Unicode.isPart_of_isBlank h)

theorem endsAt_blockCommentLength (s : Text) : EndsAt s (blockCommentLength s) := by
  induction s with
  | nil => exact .nil _
  | cons c r ih =>
      rw [blockCommentLength]
      split
      · next h =>
          obtain ⟨t, rfl⟩ := List.head?_eq_some_iff.1
            (of_decide_eq_true (Bool.and_eq_true_iff.1 h).2)
          exact EndsAt.cons (.single rfl)
      · rw [Nat.add_comm]
        exact ih.cons

theorem endsAt_lineBreakMore {c : Char} (h : isLineBreak c = true) (r : Text) :
    EndsAt (c :: r) (lineBreakMore c r + 1) := by
  unfold lineBreakMore
  split
  · next h =>
      obtain ⟨t, rfl⟩ := List.head?_eq_some_iff.1
        (of_decide_eq_true (Bool.and_eq_true_iff.1 h).2)
      exact EndsAt.cons (.single rfl)
  · exact .single (Unicode.isPart_of_isLineBreak h)

theorem endsAt_shape? {l : Language} {last : Option Char} {c : Char} {r : Text} {k : TriviaKind}
    {n : Nat} (h : shape? l last c r = some (k, n)) : EndsAt (c :: r) (n + 1) := by
  unfold shape? at h
  split at h
  · next hc =>
      obtain ⟨-, rfl⟩ := Prod.mk.inj (Option.some.inj h)
      exact endsAt_lineBreakMore hc r
  split at h
  · next hc =>
      obtain ⟨-, rfl⟩ := Prod.mk.inj (Option.some.inj h)
      exact endsAt_isBlank hc r
  cases l with
  | csharp =>
      dsimp only at h
      split at h
      · obtain ⟨-, rfl⟩ := Prod.mk.inj (Option.some.inj h)
        exact (endsAt_inLine r).cons
      split at h
      · obtain ⟨-, rfl⟩ := Prod.mk.inj (Option.some.inj h)
        exact EndsAt.cons (EndsAt.drop (endsAt_blockCommentLength _))
      · cases h
  | visualBasic =>
      dsimp only at h
      split at h
      · obtain ⟨-, rfl⟩ := Prod.mk.inj (Option.some.inj h)
        exact (endsAt_inLine r).cons
      split at h
      · next hb =>
          obtain ⟨-, rfl⟩ := Prod.mk.inj (Option.some.inj h)
          simp only [beginsContinuation, Bool.and_eq_true, List.all_eq_true] at hb
          refine EndsAt.cons (.of_head fun d hd => ?_)
          obtain ⟨t, rfl⟩ := List.head?_eq_some_iff.1 hd
          by_cases hi : inLine d = true
          · exact Unicode.isPart_of_isBlank
              (hb.2 d (List.takeWhile_cons_of_pos hi ▸ List.mem_cons_self))
          · exact Unicode.isPart_of_isLineBreak (by simpa [inLine] using hi)
      · cases h

theorem fresh_shape? {l : Language} {last : Option Char} {c : Char} {r pre : Text}
    {k : TriviaKind} {n : Nat} (h : shape? l last c r = some (k, n)) :
    Fresh (pre ++ (c :: r.take n)) (r.drop n) :=
  .of_endsAt (endsAt_shape? h)

theorem fresh_blanks {s pre : Text} (h : Fresh pre s) :
    Fresh (pre ++ Trivia.sources (blanks s)) (afterBlanks s) := by
  unfold blanks afterBlanks
  cases s with
  | nil => exact .done _
  | cons c r =>
      by_cases hc : isBlank c = true
      · rw [List.takeWhile_cons_of_pos hc, List.dropWhile_cons_of_pos hc]
        have hf : Fresh (pre ++ _) _ := .of_endsAt (endsAt_isBlank hc r)
        rw [List.take_succ_cons, Shape.take_length_takeWhile, List.drop_succ_cons,
          Shape.drop_length_takeWhile] at hf
        simpa [Trivia.sources] using hf
      · rw [List.takeWhile_cons_of_neg hc, List.dropWhile_cons_of_neg hc]
        simpa [Trivia.sources] using h

end Gap

/-! ## Tokens -/

/-- A token where it stands in a text: no name reaches it from the left, and it stands for a name
as its kind tells. -/
structure Stands (whole pre : Text) (l : Lexeme) : Prop where
  fresh : ∃ post, whole = pre ++ l.text ++ post ∧ Fresh pre (l.text ++ post)
  isName : l.kind = .identifier → l.text ≠ [] ∧ (l.value = [] ∨ IsName l.value)
  empty : l.text = [] → l.value = [] ∧ (l.kind = .endOfFile ∨ l.kind = .endOfDirective)

/-- The empty token at the end of a text or of a directive. -/
theorem Stands.ofEnd {pre post : Text} {l : Lexeme} (ht : l.text = []) (hd : l.decoded = none)
    (hk : l.kind = .endOfFile ∨ l.kind = .endOfDirective) (h : Fresh pre post) :
    Stands (pre ++ post) pre l where
  fresh := ⟨post, by rw [ht, List.append_nil], by rwa [ht]⟩
  isName hi := by rcases hk with hk | hk <;> rw [hi] at hk <;> cases hk
  empty _ := ⟨by rw [Lexeme.value, hd]; exact ht, hk⟩

section

variable {l : Language} {pre : Text} {c : Char} {r : Text}

theorem Fresh.token (h : Fresh pre (c :: r)) :
    Fresh (pre ++ (c :: r.take (Shape.ofLanguage l c r).more))
      (r.drop (Shape.ofLanguage l c r).more) := by
  rcases Shape.endsAt_ofLanguage l c r with he | ⟨hn, hs⟩
  · exact .of_endsAt he
  · rw [hn]
    exact h.single hs

theorem Stands.token {x : Lexeme} (h : Fresh pre (c :: r))
    (ht : x.text = c :: r.take (Shape.ofLanguage l c r).more)
    (hd : x.decoded = (Shape.ofLanguage l c r).decoded)
    (hk : x.kind = .identifier → (Shape.ofLanguage l c r).kind = .identifier) :
    Stands (pre ++ c :: r) pre x where
  fresh := by
    refine ⟨r.drop (Shape.ofLanguage l c r).more, ?_, ?_⟩
    · rw [ht, List.append_assoc, List.cons_append, List.take_append_drop]
    · rwa [ht, List.cons_append, List.take_append_drop]
  isName hi := by
    rw [Lexeme.value, hd, ht]
    exact ⟨List.cons_ne_nil _ _, (Shape.isName_ofLanguage (hk hi)).imp_left And.left⟩
  empty he := by
    rw [ht] at he
    cases he

end

/-! ## Directives -/

namespace Gap

theorem isIdentifier_of_directiveKind {l : Language} {sh : Shape} {text : Text}
    (h : directiveKind l sh text = .identifier) : sh.kind = .identifier := by
  unfold directiveKind at h
  split at h
  · cases h
  · exact h

/-- The name of a directive takes no underscore, so one may follow; and no name begins before it. -/
theorem fresh_directiveName {c : Char} {r pre : Text} (h : Fresh pre (c :: r))
    (hc : Unicode.isAlphabetic c = true) :
    Fresh (pre ++ (c :: r.takeWhile Unicode.isAlphanumeric))
      (r.dropWhile Unicode.isAlphanumeric) := by
  have ha : ∀ e ∈ c :: r.takeWhile Unicode.isAlphanumeric, Unicode.isAlphanumeric e = true :=
    List.forall_mem_cons.2 ⟨Unicode.isAlphanumeric_of_isAlphabetic hc,
      List.all_eq_true.1 List.all_takeWhile⟩
  have hp : ∀ e, Unicode.isAlphanumeric e = true → isPart e = true := by
    intro e he
    rw [isPart, he, Bool.or_true]
  have hu : ∀ e, Unicode.isAlphanumeric e = true → e ≠ '_' := by
    rintro e he rfl
    cases he
  intro d hd hpd e he hs
  have hda : Unicode.isAlphanumeric d = false := by
    have hn := List.head?_dropWhile_not Unicode.isAlphanumeric r
    rw [hd] at hn
    simpa using hn
  refine ⟨by simpa [isPart, hda] using hpd, ?_⟩
  rw [trailingRun, List.reverse_append, List.takeWhile_append_of_pos
    fun x hx => hp x (ha x (List.mem_reverse.1 hx))] at he
  rcases List.mem_append.1 he with he | he
  · exact hu e (ha e (List.mem_reverse.1 he))
  · exact absurd (h c rfl (hp c (Unicode.isAlphanumeric_of_isAlphabetic hc)) e he hs).1
      (hu c (Unicode.isAlphanumeric_of_isAlphabetic hc))

theorem fresh_directiveEnd {s pre : Text} (h : ∀ d ∈ s.head?, isLineBreak d = true) :
    Fresh (pre ++ Trivia.sources (directiveEnd s).1) (directiveEnd s).2 := by
  unfold directiveEnd
  split
  · exact .done _
  · next c r =>
      have hc := h c rfl
      rw [if_pos hc]
      have he : Fresh (pre ++ _) _ := .of_endsAt (endsAt_lineBreakMore hc r)
      rw [List.take_succ_cons, List.drop_succ_cons] at he
      simpa [Trivia.sources] using he

variable {l : Language} {pre s s' : Text} {w : Word}

theorem stands_word (h : Fresh pre s) (hw : WordCut l s w s') :
    Stands (pre ++ s) pre (.ofWord w) := by
  cases hw with
  | hash s =>
      refine ⟨⟨s, ?_, .of_head ?_⟩, fun hk => ?_, fun ht => absurd ht (List.cons_ne_nil _ _)⟩
      · show _ = pre ++ ['#'] ++ s
        rw [List.append_assoc]
        rfl
      · intro d hd
        obtain rfl := Option.some.inj hd
        rfl
      · cases hk
  | @name c r k hc hk =>
      refine ⟨⟨r.dropWhile Unicode.isAlphanumeric, ?_, ?_⟩,
        fun _ => ⟨List.cons_ne_nil _ _, .inr ⟨?_, fun d hd => ?_⟩⟩,
        fun ht => absurd ht (List.cons_ne_nil _ _)⟩
      · show _ = pre ++ (c :: r.takeWhile Unicode.isAlphanumeric) ++ _
        rw [List.append_assoc, List.cons_append, List.takeWhile_append_dropWhile]
      · show Fresh pre (c :: r.takeWhile Unicode.isAlphanumeric ++ _)
        rwa [List.cons_append, List.takeWhile_append_dropWhile]
      · rw [isStart, hc, Bool.or_true]
      · rw [isPart, List.all_eq_true.1 List.all_takeWhile d hd, Bool.or_true]
  | word hc => exact .token (l := l) h rfl rfl isIdentifier_of_directiveKind

theorem fresh_word (h : Fresh pre s) (hw : WordCut l s w s') : Fresh (pre ++ w.source) s' := by
  rw [Word.source, hw.leading, Trivia.sources_nil, List.nil_append, ← List.append_assoc]
  cases hw with
  | hash s => exact fresh_blanks (.of_last rfl rfl)
  | name hc => exact fresh_blanks (fresh_directiveName h hc)
  | word hc => exact fresh_blanks (Fresh.token (l := l) h)

theorem fresh_ends {pending : List Trivia} (h : Ends s pending s') :
    Fresh (pre ++ Trivia.sources pending) s' :=
  .of_head fun d hd => Unicode.isPart_of_isLineBreak (h.isLineBreak d hd)

end Gap

/-! ## Whole texts -/

/-- Where no name goes over one cut none goes over the next. -/
theorem spotInvariant_fresh (l : Language) :
    SpotInvariant l Fresh fun pre rest x => Stands (pre ++ rest) pre x where
  trivia _ hs := Gap.fresh_shape? hs
  word h hw := ⟨Gap.stands_word h hw, Gap.fresh_word h hw⟩
  ends {pre s pending s'} _ he := by
    refine ⟨.ofEnd rfl rfl (.inr rfl) (Gap.fresh_ends he), ?_⟩
    rw [Word.source, ← List.append_assoc, ← List.append_assoc]
    exact Gap.fresh_directiveEnd he.isLineBreak
  token _ h := ⟨.token (l := l) h rfl rfl id, h.token⟩
  last _ h := .ofEnd rfl rfl (.inl rfl) h

namespace LexemeSeq

/-- Every token of a text stands where no name reaches it from the left. -/
theorem stands_ofText (l : Language) (s : Text) :
    ∀ x ∈ Lexeme.spots [] (ofText l s).all, Stands s x.1 x.2 := by
  intro x hx
  obtain ⟨rest, hw, hp⟩ := (spotInvariant_fresh l).scan (.start s) x hx
  rw [List.nil_append] at hw
  rw [hw]
  exact hp

theorem kind_ne_of_mem_scan {l : Language} {m : Margin} {s : Text} :
    ∀ x ∈ (scan l m s).lexemes, x.kind ≠ .endOfFile := by
  obtain ⟨_, _, h, -⟩ := scan_cuts (l := l) (I := fun xs _ _ => ∀ x ∈ xs, x.kind ≠ .endOfFile)
    (fun h _ => List.forall_mem_append.2
      ⟨h, List.forall_mem_singleton.2 (Shape.kind_ofLanguage_ne l _ _)⟩)
    [] m s (List.forall_mem_nil _)
  exact h

theorem kind_last_scan {l : Language} {m : Margin} {s : Text} :
    (scan l m s).last.kind = .endOfFile := by
  obtain ⟨_, _, -, -, h⟩ := scan_cuts (l := l) (I := fun _ _ _ => True)
    (fun _ _ => trivial) [] m s trivial
  rw [h]
  rfl

/-- The sources of all lexemes are the text. -/
theorem sources_all (l : Language) (s : Text) :
    Lexeme.sources (ofText l s).all = s := by
  rw [all, Lexeme.sources_append, Lexeme.sources_singleton]
  exact source_ofText l s

end LexemeSeq

end Xref
