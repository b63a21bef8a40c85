import Xref.Lexeme.Shape
import Xref.Proofs.Unicode.Classes

/-!
# Where tokens end

A token ends where no name can go on: behind a character that continues no name, or before one, or
at the end of the text. The one exception is a single character that continues names and begins
none, such as a superscript digit; it is a token of its own and the letter behind it another. This
is what the scanners' lengths come to (`Shape.endsAt_ofLanguage`), case by case along the recursion
that counts them.

The other thing to know of a shape is what a name looks like: what it stands for is a well-formed
name, or nothing at all if the only character spelled was refused (`Shape.isName_ofLanguage`).
-/

namespace Xref

open Identifier

/-- After `n` characters no name goes on: the last of them continues none, or the next one does
not. -/
def EndsAt (s : Text) (n : Nat) : Prop :=
  (∀ d ∈ (s.drop n).head?, isPart d = false) ∨ ∃ c ∈ (s.take n).getLast?, isPart c = false

namespace EndsAt

variable {s : Text} {n : Nat} {c : Char}

theorem of_head (h : ∀ d ∈ s.head?, isPart d = false) : EndsAt s 0 :=
  .inl h

theorem nil (n : Nat) : EndsAt [] n :=
  .inl (by rw [List.drop_nil]; exact nofun)

theorem of_drop (h : s.drop n = []) : EndsAt s n :=
  .inl (by rw [h]; exact nofun)

theorem single (h : isPart c = false) : EndsAt (c :: s) 1 :=
  .inr ⟨c, by rw [List.take_succ_cons]; rfl, h⟩

theorem drop {k : Nat} (h : EndsAt (s.drop k) n) : EndsAt s (k + n) := by
  rcases h with h | ⟨c, hc, hp⟩
  · rw [List.drop_drop] at h
    exact .inl h
  · refine .inr ⟨c, ?_, hp⟩
    rw [List.take_add, List.getLast?_append, hc]
    rfl

theorem cons (h : EndsAt s n) : EndsAt (c :: s) (n + 1) := by
  rw [Nat.add_comm]
  exact drop h

/-- A run of characters of a sort, where everything that continues a name is of the sort. -/
theorem takeWhile {p : Char → Bool} (hp : ∀ d, p d = false → isPart d = false) :
    EndsAt s (s.takeWhile p).length := by
  induction s with
  | nil => exact nil _
  | cons c s ih =>
      rw [List.takeWhile_cons]
      split
      · exact ih.cons
      · next h =>
          refine of_head fun d hd => ?_
          obtain rfl := Option.some.inj hd
          exact hp _ (by simpa using h)

end EndsAt

namespace Shape

/-! ## Strings and numbers -/

theorem endsAt_lineBreak {c : Char} {r : Text} (h : isLineBreak c = true) : EndsAt (c :: r) 0 := by
  refine .of_head fun d hd => ?_
  obtain rfl := Option.some.inj hd
  exact Unicode.isPart_of_isLineBreak h

theorem endsAt_quotedLength {q : Char} (hq : isPart q = false) (s : Text) :
    EndsAt s (quotedLength q s) := by
  induction s using quotedLength.induct (q := q) with
  | case1 => exact .nil _
  | case2 c h =>
      rw [quotedLength, if_pos h]
      exact endsAt_lineBreak h
  | case3 c h =>
      rw [quotedLength, if_neg h]
      exact .of_drop rfl
  | case4 c d r h =>
      rw [quotedLength, if_pos h]
      exact endsAt_lineBreak h
  | case5 d r h h' =>
      rw [quotedLength, if_neg h', if_pos rfl, if_pos h]
      exact (endsAt_lineBreak h).cons
  | case6 d r h h' ih =>
      rw [quotedLength, if_neg h', if_pos rfl, if_neg h, Nat.add_comm]
      exact ih.cons.cons
  | case7 d r h h' =>
      rw [quotedLength, if_neg h, if_neg h', if_pos rfl]
      exact .single hq
  | case8 c d r h h' h'' ih =>
      rw [quotedLength, if_neg h, if_neg h', if_neg h'', Nat.add_comm]
      exact ih.cons

theorem endsAt_verbatimLength (s : Text) : EndsAt s (verbatimLength s) := by
  induction s using verbatimLength.induct with
  | case1 => exact .nil _
  | case2 c => exact .of_drop rfl
  | case3 r ih =>
      rw [verbatimLength, if_pos rfl, if_pos rfl, Nat.add_comm]
      exact ih.cons.cons
  | case4 d r h =>
      rw [verbatimLength, if_pos rfl, if_neg h]
      exact .single rfl
  | case5 c d r h ih =>
      rw [verbatimLength, if_neg h, Nat.add_comm]
      exact ih.cons

theorem endsAt_basicLiteral (s : Text) : EndsAt s (basicLiteral s).1 := by
  induction s using basicLiteral.induct with
  | case1 => exact .nil _
  | case2 c =>
      rw [basicLiteral]
      split
      · next h => exact endsAt_lineBreak h
      · exact .of_drop rfl
  | case3 c d r h =>
      rw [basicLiteral, if_pos h]
      exact endsAt_lineBreak h
  | case4 r n k hb h ih =>
      rw [basicLiteral, if_neg h, if_pos rfl, if_pos rfl, hb]
      rw [hb] at ih
      show EndsAt _ (2 + n)
      rw [Nat.add_comm]
      exact ih.cons.cons
  | case5 d r h h' h'' =>
      rw [basicLiteral, if_neg h'', if_pos rfl, if_neg h, if_pos h']
      refine EndsAt.cons (EndsAt.cons (.of_head fun e he => ?_))
      simp only [Bool.and_eq_true, Bool.not_eq_true', Option.any_eq_false] at h'
      exact h'.2 e he
  | case6 d r h h' h'' =>
      rw [basicLiteral, if_neg h'', if_pos rfl, if_neg h, if_neg h']
      exact .single rfl
  | case7 c d r h h' n k hb ih =>
      rw [basicLiteral, if_neg h, if_neg h', hb]
      rw [hb] at ih
      show EndsAt _ (1 + n)
      rw [Nat.add_comm]
      exact ih.cons

theorem endsAt_numberLength (s : Text) : EndsAt s (numberLength s) := by
  induction s with
  | nil => exact .nil _
  | cons c r ih =>
      rw [numberLength]
      split
      · rw [Nat.add_comm]
        exact ih.cons
      · next h =>
          refine .of_head fun d hd => ?_
          obtain rfl := Option.some.inj hd
          rw [Bool.or_eq_true, not_or] at h
          simpa using h.1

/-! ## Names -/

theorem ok_of_spelled? {ok : Char → Bool} {c : Char} {r : Text} {u : Char × Nat}
    (h : spelled? ok c r = some u) : ok u.1 = true := by
  unfold spelled? at h
  split at h
  · exact (Option.filter_eq_some_iff.1 h).2
  · split at h
    · next hc =>
        obtain rfl := Option.some.inj h
        exact hc
    · cases h

/-- Where nothing is spelled stands a backslash, or a character that has not the property. -/
theorem ok_of_spelled?_eq_none {ok : Char → Bool} {c : Char} {r : Text}
    (h : spelled? ok c r = none) (hb : ok '\\' = false) : ok c = false := by
  unfold spelled? at h
  split at h
  · next hc => rw [hc, hb]
  · split at h
    · cases h
    · next hc => exact Bool.eq_false_iff.2 hc

theorem eq_of_spelled? {ok : Char → Bool} {c : Char} {r : Text} {u : Char × Nat}
    (h : spelled? ok c r = some u) (hu : u.2 = 0) : u.1 = c := by
  unfold spelled? at h
  split at h
  · obtain ⟨he, -⟩ := Option.filter_eq_some_iff.1 h
    unfold escape? at he
    split at he
    · obtain ⟨x, -, rfl⟩ := Option.map_eq_some_iff.1 he
      cases hu
    · obtain ⟨x, -, rfl⟩ := Option.map_eq_some_iff.1 he
      cases hu
    · cases he
  · split at h
    · obtain rfl := Option.some.inj h
      rfl
    · cases h

theorem spellings_nil (ok : Char → Bool) : spellings ok [] = [] := by
  rw [spellings]

theorem spellings_of_none {ok : Char → Bool} {c : Char} {r : Text} (h : spelled? ok c r = none) :
    spellings ok (c :: r) = [] := by
  rw [spellings, h]

theorem spellings_of_some {ok : Char → Bool} {c : Char} {r : Text} {u : Char × Nat}
    (h : spelled? ok c r = some u) :
    spellings ok (c :: r) = u :: spellings isPart (r.drop u.2) := by
  rw [spellings, h]

theorem endsAt_spellings (s : Text) : EndsAt s (spelledLength (spellings isPart s)) := by
  generalize hp : isPart = ok
  induction ok, s using spellings.induct with
  | case1 ok => exact .nil _
  | case2 ok c r h =>
      rw [spellings_of_none h]
      refine .of_head fun d hd => ?_
      obtain rfl := Option.some.inj hd
      exact hp ▸ ok_of_spelled?_eq_none h (by rw [← hp]; rfl)
  | case3 ok c r u h ih =>
      rw [spellings_of_some h, spelledLength, Nat.add_right_comm]
      exact (ih rfl).drop.cons

theorem isPart_of_mem_spellings {s : Text} :
    ∀ c ∈ spelledName (spellings isPart s), isPart c = true := by
  generalize hp : isPart = ok
  induction ok, s using spellings.induct with
  | case1 ok => rw [spellings_nil]; exact nofun
  | case2 ok c r h => rw [spellings_of_none h]; exact nofun
  | case3 ok c r u h ih =>
      subst hp
      rw [spellings_of_some h]
      exact List.forall_mem_cons.2 ⟨ok_of_spelled? h, ih rfl⟩

theorem isName_spellings {c : Char} {r : Text} {u : Char × Nat}
    (h : spelled? isStart c r = some u) :
    IsName (u.1 :: spelledName (spellings isPart (r.drop u.2))) :=
  ⟨ok_of_spelled? h, isPart_of_mem_spellings⟩

/-- Without escapes a name is spelled as it is written. -/
theorem take_spelledLength {s : Text} (h : anyEscape (spellings isPart s) = false) :
    s.take (spelledLength (spellings isPart s)) = spelledName (spellings isPart s) := by
  generalize hp : isPart = ok at h ⊢
  induction ok, s using spellings.induct with
  | case1 ok => rw [spellings_nil]; rfl
  | case2 ok c r hc => rw [spellings_of_none hc]; rfl
  | case3 ok c r u hc ih =>
      rw [spellings_of_some hc] at h ⊢
      simp only [anyEscape, List.any_cons, Bool.or_eq_false_iff, bne_eq_false_iff_eq] at h
      have hi := ih rfl h.2
      rw [h.1, List.drop_zero] at hi
      rw [spelledLength, h.1, List.drop_zero, Nat.zero_add, Nat.add_comm, List.take_succ_cons, hi,
        ← eq_of_spelled? hc h.1]
      rfl

/-! ## Marks -/

theorem endsAt_operator (l : Language) :
    ∀ op ∈ operators l, op ≠ [] ∧ ∃ c ∈ op.getLast?, isPart c = false := by
  have h : ∀ op ∈ operators l, (op.getLast?.any fun c => !isPart c) = true := by
    cases l <;> decide
  intro op hop
  obtain ⟨c, hc, hp⟩ := (Option.any_eq_true _ _).1 (h op hop)
  refine ⟨?_, c, hc, by simpa using hp⟩
  rintro rfl
  cases hc

theorem endsAt_mark (l : Language) {c : Char} (r : Text)
    (hc : isStart c = false ∨ isPart c = false) :
    EndsAt (c :: r) ((mark l c r).more + 1) ∨ ((mark l c r).more = 0 ∧ isStart c = false) := by
  unfold mark
  split
  · next op hop =>
      obtain ⟨hne, d, hd, hp⟩ := endsAt_operator l op (List.mem_of_find?_eq_some hop)
      have hpre : op.isPrefixOf (c :: r) = true :=
        List.find?_some (p := fun x : Text => x.isPrefixOf (c :: r)) hop
      obtain ⟨t, ht⟩ := List.isPrefixOf_iff_prefix.1 hpre
      have hl : op.length - 1 + 1 = op.length :=
        Nat.sub_add_cancel (List.length_pos_iff.2 hne)
      refine .inl (.inr ⟨d, ?_, hp⟩)
      rw [hl, ← ht, List.take_left]
      exact hd
  · rcases hc with hc | hc
    · exact .inr ⟨rfl, hc⟩
    · exact .inl (.single hc)

/-! ## Tokens -/

theorem take_length_takeWhile (p : Char → Bool) (r : Text) :
    r.take (r.takeWhile p).length = r.takeWhile p := by
  have h : (r.takeWhile p ++ r.dropWhile p).take (r.takeWhile p).length = r.takeWhile p :=
    List.take_left
  rwa [List.takeWhile_append_dropWhile] at h

theorem drop_length_takeWhile (p : Char → Bool) (r : Text) :
    r.drop (r.takeWhile p).length = r.dropWhile p := by
  have h : (r.takeWhile p ++ r.dropWhile p).drop (r.takeWhile p).length = r.dropWhile p :=
    List.drop_left
  rwa [List.takeWhile_append_dropWhile] at h

theorem endsAt_csharp (c : Char) (r : Text) :
    EndsAt (c :: r) ((csharp c r).more + 1) ∨ ((csharp c r).more = 0 ∧ isStart c = false) := by
  unfold csharp
  split
  · exact .inl (EndsAt.cons (EndsAt.drop (endsAt_verbatimLength _)))
  split
  · exact .inl (EndsAt.cons (EndsAt.drop (endsAt_verbatimLength _)))
  split
  · next hc =>
      obtain ⟨hc, -⟩ := Bool.and_eq_true_iff.1 hc
      obtain rfl := of_decide_eq_true hc
      left
      show EndsAt ('@' :: r) (spelledLength (spellings isStart r) + 1)
      -- a refused first spelling leaves the mark alone, which continues no name
      cases r with
      | nil => rw [spellings_nil]; exact .single rfl
      | cons d r =>
          cases hd : spelled? isStart d r with
          | none => rw [spellings_of_none hd]; exact .single rfl
          | some u =>
              rw [spellings_of_some hd, spelledLength, Nat.add_right_comm u.2]
              exact (endsAt_spellings _).drop.cons.cons
  split
  · exact .inl (EndsAt.cons (EndsAt.drop (endsAt_quotedLength rfl _)))
  split
  · exact .inl (EndsAt.cons (EndsAt.drop (endsAt_verbatimLength _)))
  split
  · exact .inl (endsAt_quotedLength rfl r).cons
  split
  · exact .inl (endsAt_quotedLength rfl r).cons
  split
  · next u hu =>
      have h : EndsAt (c :: r) (u.2 + spelledLength (spellings isPart (r.drop u.2)) + 1) :=
        (endsAt_spellings _).drop.cons
      dsimp only
      split
      · exact .inl h
      · exact .inl h
  · next hn =>
      split
      · exact .inl (endsAt_numberLength r).cons
      · exact endsAt_mark .csharp r (.inl (ok_of_spelled?_eq_none hn rfl))

theorem endsAt_visualBasic (c : Char) (r : Text) :
    EndsAt (c :: r) ((visualBasic c r).more + 1) ∨
      ((visualBasic c r).more = 0 ∧ isStart c = false) := by
  unfold visualBasic
  split
  · next hc =>
      simp only [Bool.and_eq_true, decide_eq_true_eq] at hc
      left
      show EndsAt (c :: r) ((r.takeWhile isPart).length + 1 + 1)
      -- the closing bracket is what stands after the name
      refine EndsAt.cons (EndsAt.drop ?_)
      obtain ⟨t, ht⟩ := List.head?_eq_some_iff.1 hc.2
      rw [drop_length_takeWhile, ht]
      exact .single rfl
  split
  · exact .inl (endsAt_basicLiteral r).cons
  split
  · exact .inl (EndsAt.takeWhile fun _ h => h).cons
  split
  · exact .inl (endsAt_numberLength r).cons
  · next hs _ => exact endsAt_mark .visualBasic r (.inl (Bool.eq_false_iff.2 hs))

/-- A token ends where no name goes on, or is one character that begins none. -/
theorem endsAt_ofLanguage (l : Language) (c : Char) (r : Text) :
    EndsAt (c :: r) ((ofLanguage l c r).more + 1) ∨
      ((ofLanguage l c r).more = 0 ∧ isStart c = false) := by
  cases l with
  | csharp => exact endsAt_csharp c r
  | visualBasic => exact endsAt_visualBasic c r

/-! ## Kinds -/

theorem kind_mark (l : Language) (c : Char) (r : Text) :
    (mark l c r).kind ≠ .identifier ∧ (mark l c r).kind ≠ .endOfFile := by
  unfold mark
  split
  · split <;> simp
  · unfold markKind
    split
    all_goals ((try split) <;> simp)

theorem kind?_ne {l : Language} {word : Text} {k : TokenKind} (h : Keyword.kind? l word = some k) :
    k ≠ .identifier ∧ k ≠ .endOfFile := by
  have hall : ∀ t ∈ [Keyword.csharp, Keyword.visualBasic], ∀ e ∈ t,
      e.1 ≠ .identifier ∧ e.1 ≠ .endOfFile := by
    decide
  have hk (t : Keyword.Table) (ht : t ∈ [Keyword.csharp, Keyword.visualBasic]) (w : Text)
      (h : t.kind? w = some k) : k ≠ .identifier ∧ k ≠ .endOfFile := by
    obtain ⟨e, he, rfl⟩ := Option.map_eq_some_iff.1 h
    exact hall t ht e (List.mem_of_find?_eq_some he)
  cases l with
  | csharp => exact hk _ List.mem_cons_self _ h
  | visualBasic => exact hk _ (List.mem_cons_of_mem _ List.mem_cons_self) _ h

theorem getD_kind?_ne (l : Language) (word : Text) :
    (Keyword.kind? l word).getD .identifier ≠ .endOfFile := by
  cases h : Keyword.kind? l word with
  | none => decide
  | some k => exact (kind?_ne h).2

theorem kind_basicLiteral (s : Text) :
    (basicLiteral s).2 = .stringLiteral ∨ (basicLiteral s).2 = .characterLiteral := by
  induction s using basicLiteral.induct with
  | case1 => exact .inl rfl
  | case2 c => exact .inl rfl
  | case3 c d r h => rw [basicLiteral, if_pos h]; exact .inl rfl
  | case4 r n k hb h ih => rw [basicLiteral, if_neg h, if_pos rfl, if_pos rfl, hb]; rwa [hb] at ih
  | case5 d r h h' h'' =>
      rw [basicLiteral, if_neg h'', if_pos rfl, if_neg h, if_pos h']
      exact .inr rfl
  | case6 d r h h' h'' =>
      rw [basicLiteral, if_neg h'', if_pos rfl, if_neg h, if_neg h']
      exact .inl rfl
  | case7 c d r h h' n k hb ih => rw [basicLiteral, if_neg h, if_neg h', hb]; rwa [hb] at ih

/-- No token passes for the end of the text. -/
theorem kind_ofLanguage_ne (l : Language) (c : Char) (r : Text) :
    (ofLanguage l c r).kind ≠ .endOfFile := by
  cases l with
  | csharp =>
      show (csharp c r).kind ≠ _
      unfold csharp
      repeat' split
      all_goals first
        | exact (kind_mark _ _ _).2
        | (dsimp only; split <;> first | exact getD_kind?_ne _ _ | simp)
        | simp
  | visualBasic =>
      show (visualBasic c r).kind ≠ _
      unfold visualBasic
      split
      · simp
      split
      · show (basicLiteral r).2 ≠ _
        rcases kind_basicLiteral r with h | h <;> rw [h] <;> simp
      split
      · exact getD_kind?_ne _ _
      split
      · simp
      · exact (kind_mark _ _ _).2

/-! ## What names stand for -/

theorem isPart_of_mem_takeWhile {r : Text} : ∀ d ∈ r.takeWhile isPart, isPart d = true :=
  List.all_eq_true.1 List.all_takeWhile

/-- A backslash after the token, at which no name begins. -/
def BeforeStray (sh : Shape) (r : Text) : Prop :=
  sh.more = 0 ∧ ∃ r', r = '\\' :: r' ∧ spelled? isStart '\\' r' = none

/-- A name behind a sign is spelled, unless the sign stands before an escape that begins none. -/
theorem isName_verbatim {r : Text}
    (hr : r.head?.any isStart = true ∨ r.head? = some '\\') :
    (spelledName (spellings isStart r) = [] ∧ spelledLength (spellings isStart r) = 0 ∧
        ∃ r', r = '\\' :: r' ∧ spelled? isStart '\\' r' = none) ∨
      IsName (spelledName (spellings isStart r)) := by
  cases r with
  | nil => rcases hr with hr | hr <;> cases hr
  | cons d r =>
      cases hd : spelled? isStart d r with
      | some u =>
          right
          rw [spellings_of_some hd]
          exact isName_spellings hd
      | none =>
          have hs : isStart d = false := ok_of_spelled?_eq_none hd (by decide)
          have he : d = '\\' := by
            rcases hr with hr | hr
            · rw [List.head?_cons, Option.any_some, hs] at hr
              cases hr
            · exact Option.some.inj hr
          subst he
          rw [spellings_of_none hd]
          exact .inl ⟨rfl, rfl, r, rfl, hd⟩

/-- A name without escapes is written as it is spelled. -/
theorem isName_unescaped {c : Char} {r : Text} {u : Char × Nat}
    (hu : spelled? isStart c r = some u)
    (he : anyEscape (u :: spellings isPart (r.drop u.2)) = false) :
    IsName (c :: r.take (u.2 + spelledLength (spellings isPart (r.drop u.2)))) := by
  simp only [anyEscape, List.any_cons, Bool.or_eq_false_iff, bne_eq_false_iff_eq] at he
  have hs := take_spelledLength he.2
  have hn := isName_spellings hu
  rw [he.1, List.drop_zero] at hs hn
  rwa [he.1, List.drop_zero, Nat.zero_add, hs, ← eq_of_spelled? hu he.1]

theorem isName_csharp {c : Char} {r : Text} {sh : Shape} (h : csharp c r = sh)
    (hk : sh.kind = .identifier) :
    (sh.decoded.getD (c :: r.take sh.more) = [] ∧ sh.BeforeStray r) ∨
      IsName (sh.decoded.getD (c :: r.take sh.more)) := by
  unfold csharp at h
  split at h
  · subst h; cases hk
  split at h
  · subst h; cases hk
  split at h
  · next hc =>
      subst h
      simp only [Bool.and_eq_true, Bool.or_eq_true, decide_eq_true_eq] at hc
      exact isName_verbatim (hc.2.imp_right And.left)
  split at h
  · subst h; cases hk
  split at h
  · subst h; cases hk
  split at h
  · subst h; cases hk
  split at h
  · subst h; cases hk
  split at h
  · next u hu =>
      right
      dsimp only at h
      split at h
      · subst h
        exact isName_spellings hu
      · next he =>
          subst h
          exact isName_unescaped hu (Bool.eq_false_iff.2 he)
  split at h
  · subst h; cases hk
  · subst h
    exact absurd hk (kind_mark _ _ _).1

theorem isName_visualBasic {c : Char} {r : Text} {sh : Shape} (h : visualBasic c r = sh)
    (hk : sh.kind = .identifier) : IsName (sh.decoded.getD (c :: r.take sh.more)) := by
  unfold visualBasic at h
  split at h
  · next hc =>
      subst h
      show IsName (r.takeWhile isPart)
      simp only [Bool.and_eq_true, decide_eq_true_eq] at hc
      cases r with
      | nil => cases hc.1.2
      | cons d r =>
          have hd : isStart d = true := hc.1.2
          rw [List.takeWhile_cons_of_pos (isPart_of_isStart hd)]
          exact ⟨hd, isPart_of_mem_takeWhile⟩
  split at h
  · subst h
    have hk : (basicLiteral r).2 = .identifier := hk
    rcases kind_basicLiteral r with h | h <;> rw [h] at hk <;> cases hk
  split at h
  · next hs =>
      subst h
      show IsName (c :: r.take (r.takeWhile isPart).length)
      rw [take_length_takeWhile]
      exact ⟨hs, isPart_of_mem_takeWhile⟩
  split at h
  · subst h; cases hk
  · subst h
    exact absurd hk (kind_mark _ _ _).1

/-- A name stands for a well-formed name; in C# it may stand for nothing. -/
theorem isName_ofLanguage {l : Language} {c : Char} {r : Text}
    (hk : (ofLanguage l c r).kind = .identifier) :
    let name := (ofLanguage l c r).decoded.getD (c :: r.take (ofLanguage l c r).more)
    (name = [] ∧ (ofLanguage l c r).BeforeStray r) ∨ IsName name := by
  cases l with
  | csharp => exact isName_csharp rfl hk
  | visualBasic => exact .inr (isName_visualBasic rfl hk)

end Shape

end Xref
