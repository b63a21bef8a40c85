import Xref.Proofs.Lexeme.Fresh

/-!
# What tokens are made of

A token is one of three things: what a scanner saw at the text in front of it, the name of a
directive, or a mark that directives and texts have by themselves. `Origin` says which, given the
text from the token on, and every token of a text has one (`LexemeSeq.made_ofText`). So what is
true of whatever a scanner sees is true of the tokens of a text, and no recursion over the scanner
has to be gone through for it again.

Names are the case in point. A token that is called a name stands for a well-formed one, unless it
is a C# sign in front of an escape for a character that begins no name (`Origin.isName`).
-/

namespace Xref

open Identifier

/-- The text that begins with a token says what the token is made of. -/
inductive Origin (l : Language) (x : Lexeme) : Text → Prop
  /-- A scanner saw it. In a directive it may have become a reserved word. -/
  | scanned {c : Char} {r : Text} (text : x.text = c :: r.take (Shape.ofLanguage l c r).more)
      (decoded : x.decoded = (Shape.ofLanguage l c r).decoded)
      (kind : x.kind = (Shape.ofLanguage l c r).kind ∨ x.kind = .keyword) : Origin l x (c :: r)
  /-- It is the name of a directive. -/
  | name {c : Char} {r : Text} (alphabetic : Unicode.isAlphabetic c = true)
      (text : x.text = c :: r.takeWhile Unicode.isAlphanumeric) (decoded : x.decoded = none)
      (kind : x.kind = .identifier ∨ x.kind = .keyword) : Origin l x (c :: r)
  /-- It is the sign of a directive, or the end of one or of the text. -/
  | mark {s : Text} (kind : x.kind = .hash ∨ x.kind = .endOfDirective ∨ x.kind = .endOfFile) :
      Origin l x s

/-- The token of a spot is made of what follows it in the text. -/
def Spot.Made (l : Language) (whole : Text) (x : Spot) : Prop :=
  x.Has (fun _ rest x => Origin l x rest) whole

namespace Gap

theorem directiveKind_cases {l : Language} (sh : Shape) (text : Text) :
    directiveKind l sh text = sh.kind ∨ directiveKind l sh text = .keyword := by
  unfold directiveKind
  split
  · exact .inr rfl
  · exact .inl rfl

end Gap

/-- Whatever is cut off the text is one of the three. -/
theorem spotInvariant_origin (l : Language) :
    SpotInvariant l (fun _ _ => True) fun _ rest x => Origin l x rest where
  trivia _ _ := trivial
  word {pre s w s'} _ hw := by
    refine ⟨?_, trivial⟩
    cases hw with
    | hash => exact .mark (.inl rfl)
    | name hc hk => exact .name hc rfl rfl hk
    | word => exact .scanned rfl rfl (Gap.directiveKind_cases _ _)
  ends _ _ := ⟨.mark (.inr (.inl rfl)), trivial⟩
  token _ _ := ⟨.scanned rfl rfl (.inl rfl), trivial⟩
  last _ _ := .mark (.inr (.inr rfl))

namespace LexemeSeq

/-- Every token of a text is made of what follows it there. -/
theorem made_ofText (l : Language) (s : Text) :
    ∀ x ∈ Lexeme.spots [] (ofText l s).all, x.Made l s :=
  (spotInvariant_origin l).scan trivial

end LexemeSeq

/-! ## Names -/

/-- A C# sign stands in front of an escape for a character that begins no name. -/
def StraySign (l : Language) (s : Text) : Prop :=
  l = .csharp ∧ ∃ r c n, s = '@' :: '\\' :: r ∧ Shape.escape? r = some (c, n) ∧ isStart c = false

namespace Shape

theorem spelled?_escape {ok : Char → Bool} {r : Text} :
    spelled? ok '\\' r = (escape? r).filter fun u => ok u.1 :=
  if_pos rfl

/-- The sign is taken for a name by itself. -/
theorem csharp_stray {r : Text} {c : Char} {n : Nat} (he : escape? r = some (c, n))
    (hc : isStart c = false) :
    csharp '@' ('\\' :: r) = { kind := .identifier, more := 0, decoded := some [] } := by
  have hs : spellings isStart ('\\' :: r) = [] := by
    refine spellings_of_none ?_
    rw [spelled?_escape, he, Option.filter_some, if_neg]
    rw [hc]
    exact Bool.false_ne_true
  have hh : isStart '\\' = false := by decide
  simp [csharp, he, hs, hh, spelledLength, spelledName]

/-- A sign that is taken for a name stands before a name or an escape. -/
theorem beside_sign {r : Text} (hk : (csharp '@' r).kind = .identifier) :
    r.head?.any isStart = true ∨ ∃ r' u, r = '\\' :: r' ∧ escape? r' = some u := by
  generalize h : csharp '@' r = sh at hk
  unfold csharp at h
  split at h
  · subst h; cases hk
  split at h
  · subst h; cases hk
  split at h
  · next hc =>
      simp only [Bool.and_eq_true, Bool.or_eq_true, decide_eq_true_eq] at hc
      refine hc.2.imp_right fun ⟨hr, he⟩ => ?_
      obtain ⟨r', rfl⟩ := List.head?_eq_some_iff.1 hr
      exact ⟨r', _, rfl, (Option.some_get he).symm⟩
  · -- nothing else that begins with a sign is a name
    exfalso
    have hn : spelled? isStart '@' r = none := by
      rw [spelled?, if_neg (by decide), if_neg (by decide)]
    rw [if_neg (by simp), if_neg (by simp), if_neg (by decide), if_neg (by decide), hn] at h
    have hb : beginsNumber '@' r = false := by
      simp [beginsNumber]
    simp only [hb, Bool.false_eq_true, if_false] at h
    subst h
    exact (kind_mark _ _ _).1 hk

theorem ne_nil_of_csharp {c : Char} {r : Text} (hc : c ≠ '@')
    (hk : (csharp c r).kind = .identifier) :
    (csharp c r).decoded.getD (c :: r.take (csharp c r).more) ≠ [] := by
  generalize h : csharp c r = sh at hk ⊢
  simp only [csharp, hc, decide_false, Bool.false_and, Bool.false_eq_true, if_false] at h
  split at h
  · subst h; cases hk
  split at h
  · subst h; cases hk
  split at h
  · subst h; cases hk
  split at h
  · subst h; cases hk
  split at h
  · split at h
    · subst h
      exact List.cons_ne_nil _ _
    · subst h
      exact List.cons_ne_nil _ _
  split at h
  · subst h; cases hk
  · subst h
    exact absurd hk (kind_mark _ _ _).1

theorem isName_of_not_stray {c : Char} {r : Text} (hs : ¬ StraySign .csharp (c :: r))
    (hk : (csharp c r).kind = .identifier) :
    IsName ((csharp c r).decoded.getD (c :: r.take (csharp c r).more)) := by
  rcases isName_csharp rfl hk with ⟨hv, -, r', rfl, hn⟩ | h
  · exfalso
    by_cases hc : c = '@'
    · subst hc
      rcases beside_sign hk with hd | ⟨r'', u, hr, he⟩
      · cases (show isStart '\\' = true from hd)
      · obtain rfl := (List.cons.inj hr).2
        refine hs ⟨rfl, r', u.1, u.2, rfl, he, ?_⟩
        rw [spelled?_escape, he, Option.filter_eq_none_iff] at hn
        exact Bool.eq_false_iff.2 (hn u rfl)
    · exact ne_nil_of_csharp hc hk hv
  · exact h

end Shape

namespace Origin

variable {l : Language} {x : Lexeme} {s : Text}

theorem of_stray (h : Origin l x s) (hk : x.kind = .identifier) (hs : StraySign l s) :
    x.text = ['@'] ∧ x.value = [] := by
  obtain ⟨rfl, r, c, n, rfl, he, hc⟩ := hs
  cases h with
  | scanned ht hd _ =>
      have hsh : Shape.ofLanguage .csharp '@' ('\\' :: r) = _ := Shape.csharp_stray he hc
      rw [hsh] at ht hd
      refine ⟨ht, ?_⟩
      rw [Lexeme.value, hd]
      rfl
  | name ha => cases ha
  | mark hm => rcases hm with hm | hm | hm <;> rw [hk] at hm <;> cases hm

/-- What is called a name stands for one, unless it is a stray sign. -/
theorem isName (h : Origin l x s) (hk : x.kind = .identifier) (hs : ¬ StraySign l s) :
    IsName x.value := by
  cases h with
  | scanned ht hd hk' =>
      have hk' := hk'.resolve_right (by rw [hk]; decide)
      rw [hk] at hk'
      rw [Lexeme.value, ht, hd]
      cases l with
      | csharp => exact Shape.isName_of_not_stray hs hk'.symm
      | visualBasic => exact Shape.isName_visualBasic rfl hk'.symm
  | @name c r ha ht hd =>
      rw [Lexeme.value, ht, hd]
      refine ⟨by rw [isStart, ha, Bool.or_true], fun d hd => ?_⟩
      rw [isPart, List.all_eq_true.1 List.all_takeWhile d hd, Bool.or_true]
  | mark hm => rcases hm with hm | hm | hm <;> rw [hk] at hm <;> cases hm

end Origin

end Xref
