import Xref.Proofs.Lexeme.Origin

/-!
# Every spelling of a name is one token

C# lets a name be written in many ways: any of its characters may be replaced by an escape with four
or eight digits of either case, and a sign may stand before the whole. Visual Basic lets it stand in
brackets. Each way of writing is one token with the name for its value, and takes all of the text
(`Spelling.ofText`); the one exception is a reserved word that is written as it is.

A character of a name is read off the front of what spells it (`Spells.spelled?`), whatever stands
behind, since an escape has as many digits as its letter says. An induction over the name goes on
from there: the first character has to begin a name and the others to go on with it, so the test for
the first is a parameter.
-/

namespace Xref

open Identifier

/-- The last `k` digits of a number in base sixteen. -/
def hexDigits : Nat → Nat → Text
  | 0, _ => []
  | k + 1, n => hexDigits k (n / 16) ++ [Nat.digitChar (n % 16)]

/-- What spells a character in a name: the character, or an escape for it. -/
inductive Spells (c : Char) : Text → Prop
  | plain : Spells c [c]
  | short {ds : Text} (h : ds.map Char.toLower = hexDigits 4 c.toNat) (hc : c.toNat < 0x10000) :
      Spells c ('\\' :: 'u' :: ds)
  | long {ds : Text} (h : ds.map Char.toLower = hexDigits 8 c.toNat) : Spells c ('\\' :: 'U' :: ds)

/-- What spells the characters of a name, one after the other. -/
inductive SpellsAll : Text → Text → Prop
  | nil : SpellsAll [] []
  | cons {c : Char} {s u w : Text} (hu : Spells c u) (hw : SpellsAll s w) :
      SpellsAll (c :: s) (u ++ w)

/-- The ways to write a name. A reserved word of C# needs an escape or a sign before it. -/
inductive Spelling (s : Text) : Language → Text → Prop
  | unsigned {w : Text} (h : SpellsAll s w)
      (hk : '\\' ∈ w ∨ Keyword.kind? .csharp s = none) : Spelling s .csharp w
  | signed {w : Text} (h : SpellsAll s w) : Spelling s .csharp ('@' :: w)
  | bracketed : Spelling s .visualBasic ('[' :: s ++ [']'])

/-! ## Digits -/

namespace Shape

/-- The value of a digit, as the value of digits has it. -/
def digitValue (d : Char) : Nat :=
  if d.isDigit then d.toNat - 48 else if d.isLower then d.toNat - 87 else d.toNat - 55

theorem hexValue_append (ds : Text) (d : Char) :
    hexValue (ds ++ [d]) = 16 * hexValue ds + digitValue d :=
  List.foldl_append

/-- A character whose lower case is given is this character or the upper case of it. -/
theorem eq_of_toLower {d e : Char} (h : d.toLower = e) :
    d = e ∨ 97 ≤ e.toNat ∧ d = Char.ofNat (e.toNat - 32) := by
  unfold Char.toLower at h
  split at h
  · next hu =>
      right
      obtain ⟨h₁, h₂⟩ := hu
      have h₁ : 65 ≤ d.val.toNat := h₁
      have h₂ : d.val.toNat ≤ 90 := h₂
      have he : e.toNat = d.toNat + 32 := by
        rw [← h]
        show (d.val + 32).toNat = d.val.toNat + 32
        rw [UInt32.toNat_add]
        exact Nat.mod_eq_of_lt (by show d.val.toNat + 32 < _; omega)
      have hd : 65 ≤ d.toNat := h₁
      refine ⟨by omega, ?_⟩
      rw [he, Nat.add_sub_cancel, Char.ofNat_toNat]
  · exact .inl h

theorem digit_of_toLower {d : Char} {n : Nat} (hn : n < 16) (h : d.toLower = Nat.digitChar n) :
    isHexDigit d = true ∧ digitValue d = n := by
  have hall : ∀ n < 16, (isHexDigit (Nat.digitChar n) = true ∧ digitValue (Nat.digitChar n) = n) ∧
      (97 ≤ (Nat.digitChar n).toNat →
        isHexDigit (Char.ofNat ((Nat.digitChar n).toNat - 32)) = true ∧
          digitValue (Char.ofNat ((Nat.digitChar n).toNat - 32)) = n) := by
    decide
  obtain ⟨h₁, h₂⟩ := hall n hn
  rcases eq_of_toLower h with rfl | ⟨hl, rfl⟩
  · exact h₁
  · exact h₂ hl

/-- Digits that are written in lower or upper case are read back. -/
theorem hexValue_of_hexDigits {k n : Nat} {ds : Text} (h : ds.map Char.toLower = hexDigits k n) :
    ds.length = k ∧ ds.all isHexDigit = true ∧ (n < Nat.pow 16 k → hexValue ds = n) := by
  induction k generalizing n ds with
  | zero =>
      obtain rfl := List.map_eq_nil_iff.1 h
      exact ⟨rfl, rfl, fun hn => (Nat.lt_one_iff.1 hn).symm⟩
  | succ k ih =>
      obtain ⟨es, fs, rfl, he, hf⟩ := List.map_eq_append_iff.1 h
      obtain ⟨d, rfl, hd⟩ := List.map_eq_singleton_iff.1 hf
      obtain ⟨hl, ha, hv⟩ := ih he
      obtain ⟨hx, hdv⟩ := digit_of_toLower (Nat.mod_lt n (by decide)) hd
      refine ⟨by rw [List.length_append, hl]; rfl, ?_, fun hn => ?_⟩
      · rw [List.all_append, ha, Bool.true_and, List.all_cons, hx]
        rfl
      · have hq : n / 16 < Nat.pow 16 k :=
          Nat.div_lt_of_lt_mul (Nat.mul_comm _ _ ▸ hn)
        rw [hexValue_append, hv hq, hdv]
        omega

theorem hexChar?_of_hexDigits {c : Char} {k : Nat} {ds : Text}
    (h : ds.map Char.toLower = hexDigits k c.toNat) (hc : c.toNat < Nat.pow 16 k) (r : Text) :
    hexChar? k (ds ++ r) = some c := by
  obtain ⟨hl, ha, hv⟩ := hexValue_of_hexDigits h
  have ht : (ds ++ r).take k = ds := List.take_left' hl
  have hvalid : Nat.isValidChar c.toNat := c.valid
  simp only [hexChar?, ht, hl, ha, hv hc, hvalid, decide_true, Bool.and_true, if_true,
    Char.ofNat_toNat]

end Shape

/-! ## Names -/

theorem Spells.ne_nil {c : Char} {u : Text} (h : Spells c u) : u ≠ [] := by
  cases h <;> exact List.cons_ne_nil _ _

/-- A character that may stand in a name is read off the front of what spells it. -/
theorem Spells.spelled? {ok : Char → Bool} {c d : Char} {u r : Text} (h : Spells c (d :: u))
    (hc : ok c = true) (hb : ok '\\' = false) :
    Shape.spelled? ok d (u ++ r) = some (c, u.length) := by
  cases h with
  | plain =>
      have hd : c ≠ '\\' := by
        rintro rfl
        rw [hb] at hc
        cases hc
      rw [Shape.spelled?, if_neg hd, if_pos hc]
      rfl
  | short h hlt =>
      have hl := (Shape.hexValue_of_hexDigits h).1
      have he : Shape.escape? ('u' :: _ ++ r) = some (c, 5) :=
        congrArg (Option.map (·, 5)) (Shape.hexChar?_of_hexDigits h hlt r)
      rw [Shape.spelled?_escape, he, Option.filter_some, if_pos hc, List.length_cons, hl]
  | long h =>
      have hl := (Shape.hexValue_of_hexDigits h).1
      have hv : c.toNat < 0xD800 ∨ 0xDFFF < c.toNat ∧ c.toNat < 0x110000 := c.valid
      have hlt : c.toNat < 0x100000000 := by omega
      have he : Shape.escape? ('U' :: _ ++ r) = some (c, 9) :=
        congrArg (Option.map (·, 9)) (Shape.hexChar?_of_hexDigits h hlt r)
      rw [Shape.spelled?_escape, he, Option.filter_some, if_pos hc, List.length_cons, hl]

/-- What spells a character of a name is an escape if it takes more than one character. -/
theorem Spells.mem_backslash {c d : Char} {u : Text} (h : Spells c (d :: u)) (hc : c ≠ '\\') :
    '\\' ∈ d :: u ↔ u.length ≠ 0 := by
  cases h with
  | plain => exact iff_of_false (by simpa using hc.symm) (by simp)
  | short h => exact iff_of_true List.mem_cons_self (Nat.succ_ne_zero _)
  | long h => exact iff_of_true List.mem_cons_self (Nat.succ_ne_zero _)

theorem isPart_backslash : isPart '\\' = false := by
  decide

theorem isStart_backslash : isStart '\\' = false := by
  decide

/-- The spellings found in what spells a name are those of its characters, to the end. -/
theorem SpellsAll.spellings (ok : Char → Bool) {s w : Text} (h : SpellsAll s w)
    (hs : ∀ c r, s = c :: r → ok c = true ∧ ∀ d ∈ r, isPart d = true) (hb : ok '\\' = false) :
    Shape.spelledName (Shape.spellings ok w) = s ∧
      Shape.spelledLength (Shape.spellings ok w) = w.length ∧
      (Shape.anyEscape (Shape.spellings ok w) = true ↔ '\\' ∈ w) := by
  induction h generalizing ok with
  | nil =>
      rw [Shape.spellings_nil]
      exact ⟨rfl, rfl, iff_of_false Bool.false_ne_true List.not_mem_nil⟩
  | @cons c s u w hu hw ih =>
      obtain ⟨hc, hr⟩ := hs c s rfl
      obtain ⟨d, u, rfl⟩ := List.exists_cons_of_ne_nil hu.ne_nil
      have hne : c ≠ '\\' := by
        rintro rfl
        rw [hb] at hc
        cases hc
      obtain ⟨hn, hl, he⟩ := ih isPart
        (fun e r hs => List.forall_mem_cons.1 (hs ▸ hr)) isPart_backslash
      rw [List.cons_append, Shape.spellings_of_some (hu.spelled? hc hb), List.drop_left]
      refine ⟨congrArg (c :: ·) hn, ?_, ?_⟩
      · rw [Shape.spelledLength, hl, List.length_cons, List.length_append]
        omega
      · rw [Shape.anyEscape, List.any_cons, Bool.or_eq_true, bne_iff_ne,
          ← List.cons_append, List.mem_append, hu.mem_backslash hne]
        exact or_congr_right he

/-- What spells a name without a backslash is the name. -/
theorem SpellsAll.eq_of_not_mem {s w : Text} (h : SpellsAll s w) (hb : '\\' ∉ w) : w = s := by
  induction h with
  | nil => rfl
  | cons hu hw ih =>
      rw [List.mem_append, not_or] at hb
      rw [ih hb.2]
      cases hu with
      | plain => rfl
      | short => exact absurd List.mem_cons_self hb.1
      | long => exact absurd List.mem_cons_self hb.1

/-- A name, however it is spelled, is opened by a character that begins names or by a backslash. -/
theorem Spells.head {c d : Char} {u : Text} (h : Spells c (d :: u)) (hc : isStart c = true) :
    isStart d = true ∨ d = '\\' := by
  cases h with
  | plain => exact .inl hc
  | short => exact .inr rfl
  | long => exact .inr rfl

theorem ne_of_head {d : Char} (h : isStart d = true ∨ d = '\\') {e : Char}
    (he : (isStart e || e == '\\') = false) : d ≠ e := by
  rintro rfl
  rw [Bool.or_eq_false_iff, beq_eq_false_iff_ne] at he
  rcases h with h | h
  · rw [he.1] at h
    cases h
  · exact he.2 h

/-! ## Tokens -/

namespace Shape

variable {c d : Char} {s u w : Text}

theorem csharp_signed (hs : IsName (c :: s)) (hu : Spells c (d :: u)) (hw : SpellsAll s w) :
    (ofLanguage .csharp '@' (d :: u ++ w)).kind = .identifier ∧
      (ofLanguage .csharp '@' (d :: u ++ w)).more = (d :: u ++ w).length ∧
      (ofLanguage .csharp '@' (d :: u ++ w)).decoded = some (c :: s) := by
  suffices h : csharp '@' (d :: u ++ w) = ⟨.identifier, (d :: u ++ w).length, some (c :: s)⟩ by
    rw [ofLanguage, h]
    exact ⟨rfl, rfl, rfl⟩
  obtain ⟨hn, hl, -⟩ := (SpellsAll.cons hu hw).spellings isStart
    (fun _ _ h => by obtain ⟨rfl, rfl⟩ := List.cons.inj h; exact hs) isStart_backslash
  have hd := hu.spelled? hs.1 isStart_backslash (r := w)
  have hh := hu.head hs.1
  have hq : d ≠ '"' := ne_of_head hh (by decide)
  have hq' : d ≠ '$' := ne_of_head hh (by decide)
  rw [List.cons_append] at hn hl ⊢
  simp only [csharp, List.head?_cons, Option.some.injEq, hq, List.take_succ_cons,
    List.cons.injEq, hq', false_and, Option.any_some, List.drop_succ_cons, List.drop_zero,
    decide_true, decide_false, Bool.true_and, Bool.false_eq_true, if_false, hn, hl]
  refine if_pos ?_
  rcases hh with h | rfl
  · rw [h, Bool.true_or]
  · rw [spelled?_escape] at hd
    rw [(Option.filter_eq_some_iff.1 hd).1, Option.isSome_some, decide_eq_true rfl, Bool.and_true,
      Bool.or_true]

theorem csharp_unsigned (hs : IsName (c :: s)) (hu : Spells c (d :: u)) (hw : SpellsAll s w)
    (hk : '\\' ∈ d :: u ++ w ∨ Keyword.kind? .csharp (c :: s) = none) :
    (ofLanguage .csharp d (u ++ w)).kind = .identifier ∧
      (ofLanguage .csharp d (u ++ w)).more = (u ++ w).length ∧
      (ofLanguage .csharp d (u ++ w)).decoded.getD (d :: u ++ w) = c :: s := by
  obtain ⟨hn, hl, he⟩ := hw.spellings isPart
    (fun e r h => by subst h; exact List.forall_mem_cons.1 hs.2) isPart_backslash
  have hne : c ≠ '\\' := by
    rintro rfl
    exact absurd hs.1 (by rw [isStart_backslash]; decide)
  have hany : anyEscape ((c, u.length) :: spellings isPart w) = true ↔ '\\' ∈ d :: u ++ w := by
    rw [anyEscape, List.any_cons, Bool.or_eq_true, bne_iff_ne, List.mem_append,
      hu.mem_backslash hne]
    exact or_congr_right he
  have hh := hu.head hs.1
  have h₁ : d ≠ '@' := ne_of_head hh (by decide)
  have h₂ : d ≠ '$' := ne_of_head hh (by decide)
  have h₃ : d ≠ '"' := ne_of_head hh (by decide)
  have h₄ : d ≠ '\'' := ne_of_head hh (by decide)
  simp only [ofLanguage, csharp, h₁, h₂, h₃, h₄, decide_false, Bool.false_and,
    Bool.false_eq_true, if_false, hu.spelled? hs.1 isStart_backslash, List.drop_left, hn, hl, List.length_append]
  split
  · exact ⟨rfl, rfl, rfl⟩
  · next h =>
      have hb := mt hany.2 h
      rw [hk.resolve_left hb]
      exact ⟨rfl, rfl, (SpellsAll.cons hu hw).eq_of_not_mem hb⟩

theorem visualBasic_bracketed (hs : IsName s) :
    (ofLanguage .visualBasic '[' (s ++ [']'])).kind = .identifier ∧
      (ofLanguage .visualBasic '[' (s ++ [']'])).more = (s ++ [']']).length ∧
      (ofLanguage .visualBasic '[' (s ++ [']'])).decoded = some s := by
  suffices h : visualBasic '[' (s ++ [']']) = ⟨.identifier, (s ++ [']']).length, some s⟩ by
    rw [ofLanguage, h]
    exact ⟨rfl, rfl, rfl⟩
  cases s with
  | nil => exact absurd rfl hs.ne_nil
  | cons c s =>
      have hp : ∀ d ∈ c :: s, isPart d = true :=
        List.forall_mem_cons.2 ⟨isPart_of_isStart hs.1, hs.2⟩
      have hb : isPart ']' = false := by decide
      have ht : (c :: s ++ [']']).takeWhile isPart = c :: s := by
        rw [List.takeWhile_append_of_pos hp, List.takeWhile_cons_of_neg (by rw [hb]; decide),
          List.append_nil]
      have hd : (c :: s ++ [']']).dropWhile isPart = [']'] := by
        rw [List.dropWhile_append_of_pos hp, List.dropWhile_cons_of_neg (by rw [hb]; decide)]
      simp only [visualBasic, ht, hd]
      rw [if_pos]
      · rw [List.length_append]
        rfl
      · rw [List.cons_append, List.head?_cons, Option.any_some, hs.1]
        rfl

end Shape

namespace LexemeSeq

/-- Text that begins with a name, which takes all of it, is that one token. -/
theorem ofText_of_name {l : Language} {c : Char} {r s : Text}
    (hl : Gap.shape? l none c r = none) (hc : c ≠ '#')
    (hk : (Shape.ofLanguage l c r).kind = .identifier)
    (hm : (Shape.ofLanguage l c r).more = r.length)
    (hd : (Shape.ofLanguage l c r).decoded.getD (c :: r) = s) :
    ∃ x, ofText l (c :: r) = ⟨[x], { kind := .endOfFile, text := [] }⟩ ∧ x.kind = .identifier ∧
      x.text = c :: r ∧ x.value = s ∧ x.leading = [] ∧ x.trailing = [] := by
  have hlead : Gap.leading l { startMargin with joined := false } (c :: r) =
      ⟨[], c :: r, startMargin⟩ := by
    rw [Gap.leading]
    simp [startMargin, hl, hc]
  have htrail : trailOf l c r = ⟨[], [], afterToken (c :: r)⟩ := by
    rw [trailOf, hm, List.take_length, List.drop_length, Gap.trailing]
  have hend : Gap.leading l { afterToken (c :: r) with joined := false } [] =
      ⟨[], [], afterToken (c :: r)⟩ := by
    rw [Gap.leading]
    rfl
  let x : Lexeme :=
    { kind := .identifier, text := c :: r, decoded := (Shape.ofLanguage l c r).decoded,
      startsLine := true }
  refine ⟨x, ?_, rfl, rfl, hd, rfl, rfl⟩
  rw [ofText, scan_of_token (congrArg Cut.rest hlead), htrail]
  dsimp only
  rw [scan_of_end (congrArg Cut.rest hend), hend, atToken, htrail, hm, hk, List.take_length, hlead]
  rfl

end LexemeSeq

/-- What opens a name is no trivia. -/
theorem Gap.shape?_of_head {d : Char} (h : isStart d = true ∨ d = '\\') (r : Text) :
    shape? .csharp none d r = none := by
  have hbreak : isLineBreak d = false := by
    rcases h with h | rfl
    · refine Bool.eq_false_iff.2 fun hb => ?_
      have := isPart_of_isStart h
      rw [Unicode.isPart_of_isLineBreak hb] at this
      cases this
    · decide
  have hblank : isBlank d = false := by
    rcases h with h | rfl
    · refine Bool.eq_false_iff.2 fun hb => ?_
      have := isPart_of_isStart h
      rw [Unicode.isPart_of_isBlank hb] at this
      cases this
    · decide
  have hs : d ≠ '/' := ne_of_head h (by decide)
  simp [shape?, hbreak, hblank, hs]

/-- Brackets are no part of the name. -/
theorem Spelling.ne_of_visualBasic {s w : Text} (h : Spelling s .visualBasic w) : w ≠ s := by
  cases h with
  | bracketed =>
      intro hs
      have := congrArg List.length hs
      simp only [List.cons_append, List.length_cons, List.length_append, List.length_nil] at this
      omega

/-- Every spelling of a name is one token, with all of the text and the name for its value. -/
theorem Spelling.ofText {l : Language} {s w : Text} (h : Spelling s l w) (hs : IsName s) :
    ∃ x, LexemeSeq.ofText l w = ⟨[x], { kind := .endOfFile, text := [] }⟩ ∧ x.kind = .identifier ∧
      x.text = w ∧ x.value = s ∧ x.leading = [] ∧ x.trailing = [] := by
  cases h with
  | unsigned h hk =>
      cases h with
      | nil => exact absurd rfl hs.ne_nil
      | cons hu hw =>
          obtain ⟨d, u, rfl⟩ := List.exists_cons_of_ne_nil hu.ne_nil
          have hh := hu.head hs.1
          obtain ⟨hkind, hmore, hd⟩ := Shape.csharp_unsigned hs hu hw hk
          exact LexemeSeq.ofText_of_name (Gap.shape?_of_head hh _) (ne_of_head hh (by decide))
            hkind hmore hd
  | signed h =>
      cases h with
      | nil => exact absurd rfl hs.ne_nil
      | cons hu hw =>
          obtain ⟨d, u, rfl⟩ := List.exists_cons_of_ne_nil hu.ne_nil
          obtain ⟨hkind, hmore, hd⟩ := Shape.csharp_signed hs hu hw
          exact LexemeSeq.ofText_of_name rfl (by decide) hkind hmore (congrArg (Option.getD · _) hd)
  | bracketed =>
      obtain ⟨hkind, hmore, hd⟩ := Shape.visualBasic_bracketed hs
      exact LexemeSeq.ofText_of_name rfl (by decide) hkind hmore (congrArg (Option.getD · _) hd)

end Xref
