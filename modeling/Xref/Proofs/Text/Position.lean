import Xref.Proofs.Lexeme.Lines
import Xref.Text.Source

/-!
# Positions and offsets are inverse

A position names a line and a column in code units of UTF-16, an offset counts bytes. Every offset
that cuts the text where a line can be cut, between two characters and not inside `\r\n`, is found
again from its position, as long as the number of its line fits a position. A position of a line
that exists has the least offset on the line with that many code units before it, or the offset
where the line ends; either way it is on that line (`SourceText.position_offset`). In a text with
more lines than positions can number, the offsets behind these are lost
(`SourceText.offset_lost_behind_bound`).

Everything rests on one picture: the text is the lines before, what the line has before the offset,
what it has behind, and the lines behind. Text may be cut in this way wherever `\r\n` stays whole
(`Text.exists_lines_split`), and both directions are read off such a cut.
-/

namespace Xref

namespace Text

/-- The UTF-16 code units of a text. -/
def units : Text → Nat
  | [] => 0
  | c :: r => units16 c + units r

theorem units_append (s t : Text) : units (s ++ t) = units s + units t := by
  induction s with
  | nil => exact (Nat.zero_add _).symm
  | cons c s ih =>
      show units16 c + units (s ++ t) = units16 c + units s + units t
      rw [ih, Nat.add_assoc]

theorem units16_pos (c : Char) : 0 < units16 c := by
  unfold units16
  split <;> decide

theorem unitsBefore_size (b c : Text) : unitsBefore b.size (b ++ c) = units b := by
  induction b with
  | nil =>
      cases c with
      | nil => rfl
      | cons c r => exact if_pos rfl
  | cons d b ih =>
      have := d.utf8Size_pos
      rw [List.cons_append, unitsBefore, size_cons, if_neg (by omega), Nat.add_sub_cancel_left, ih]
      rfl

/-- The code units of a part of a line lead back to its end. -/
theorem bytesToUnit_units {b : Text} (hb : Unbroken b) (c : Text) :
    bytesToUnit (units b) (b ++ c) = b.size := by
  induction b with
  | nil => cases c <;> simp [units, bytesToUnit]
  | cons d b ih =>
      obtain ⟨hd, hb⟩ := List.forall_mem_cons.1 hb
      have hu := units16_pos d
      have hn : (units (d :: b) = 0) = False := eq_false (by rw [units]; omega)
      rw [List.cons_append, bytesToUnit]
      simp only [hn, hd, decide_false, Bool.or_self, Bool.false_eq_true, if_false]
      rw [units, Nat.add_sub_cancel_left, ih hb, size_cons]

theorem bytesToUnit_close {close : Text} (h : close ∈ breaks) (n : Nat) :
    bytesToUnit n close = 0 := by
  simp only [breaks, List.mem_cons, List.not_mem_nil, or_false] at h
  rcases h with rfl | rfl | rfl | rfl
  · rfl
  all_goals exact if_pos (Bool.or_eq_true _ _ ▸ .inr rfl)

/-- A column leads to the shortest part of the line that has as many code units, or to the whole
line if there is none. -/
theorem bytesToUnit_least {body close : Text} (hb : Unbroken body) (hc : close ∈ breaks) (n : Nat) :
    ∃ b c, body = b ++ c ∧ bytesToUnit n (body ++ close) = b.size ∧ (n ≤ units b ∨ c = []) ∧
      ∀ b' c', body = b' ++ c' → n ≤ units b' → b.size ≤ b'.size := by
  induction body generalizing n with
  | nil => exact ⟨[], [], rfl, bytesToUnit_close hc n, .inr rfl, fun _ _ _ _ => Nat.zero_le _⟩
  | cons d body ih =>
      obtain ⟨hd, hb⟩ := List.forall_mem_cons.1 hb
      rcases Nat.eq_zero_or_pos n with rfl | hn
      · exact ⟨[], d :: body, rfl, if_pos rfl, .inl (Nat.zero_le _), fun _ _ _ _ => Nat.zero_le _⟩
      obtain ⟨b, c, rfl, hs, hu, hmin⟩ := ih hb (n - units16 d)
      have hn' : (n = 0) = False := eq_false (by omega)
      refine ⟨d :: b, c, rfl, ?_, ?_, fun b' c' hb' hn => ?_⟩
      · rw [List.cons_append, bytesToUnit]
        simp only [hn', hd, decide_false, Bool.or_self, Bool.false_eq_true, if_false]
        rw [hs, size_cons]
      · rcases hu with hu | hu
        · exact .inl (by rw [units]; omega)
        · exact .inr hu
      · cases b' with
        | nil => exact absurd hn (by rw [units]; omega)
        | cons e b' =>
            obtain ⟨rfl, ht⟩ := List.cons.inj hb'
            have := hmin b' c' ht (by rw [units] at hn; omega)
            rw [size_cons, size_cons]
            omega

theorem lines_ne_nil (s : Text) : lines s ≠ [] := by
  cases s with
  | nil => exact List.cons_ne_nil _ _
  | cons c r =>
      rw [lines]
      split
      · exact List.cons_ne_nil _ _
      · split <;> exact List.cons_ne_nil _ _

/-- A character that ends a line by itself is one with the line. -/
theorem lines_cons_of_break {c : Char} {r : Text}
    (h : (c == '\n' || (c == '\r' && r.head? != some '\n')) = true) :
    lines (c :: r) = [c] :: lines r :=
  if_pos h

/-- Any other character begins the line of the text behind it. -/
theorem lines_cons_of_not_break {c : Char} {r l : Text} {ls : List Text}
    (h : ¬ (c == '\n' || (c == '\r' && r.head? != some '\n')) = true) (hl : lines r = l :: ls) :
    lines (c :: r) = (c :: l) :: ls := by
  rw [lines, if_neg h, hl]

/-- A character that does not end a line by itself is no line break, or the first of two. -/
theorem isLineBreak_of_not_break {c : Char} {r : Text}
    (h : ¬ (c == '\n' || (c == '\r' && r.head? != some '\n')) = true) :
    isLineBreak c = false ∨ c = '\r' ∧ ∃ t, r = '\n' :: t := by
  by_cases hn : c = '\n'
  · exact absurd (by rw [hn]; rfl) h
  by_cases hr : c = '\r'
  · refine .inr ⟨hr, ?_⟩
    cases r with
    | nil => exact absurd (by rw [hr]; rfl) h
    | cons d t =>
        by_cases hd : d = '\n'
        · exact ⟨t, by rw [hd]⟩
        · refine absurd ?_ h
          simp [hr, hd]
  · exact .inl (by simp [isLineBreak, hn, hr])

/-- Every line is made of characters that end no line and of what ends it, which only the last one
lacks. -/
theorem exists_body_close {s l : Text} (ls : List Text) {rs : List Text}
    (h : lines s = ls ++ l :: rs) :
    ∃ body close, l = body ++ close ∧ Unbroken body ∧ close ∈ breaks ∧ (rs = [] ↔ close = []) := by
  induction s generalizing ls l with
  | nil =>
      obtain ⟨rfl, rfl, rfl⟩ : ls = [] ∧ l = [] ∧ rs = [] := by
        cases ls with
        | nil =>
            obtain ⟨hl, hr⟩ := List.cons.inj h
            exact ⟨rfl, hl.symm, hr.symm⟩
        | cons x ls => exact absurd (List.cons.inj h).2.symm (by simp)
      exact ⟨[], [], rfl, unbroken_nil, List.mem_cons_self, iff_of_true rfl rfl⟩
  | cons c r ih =>
      by_cases hb : (c == '\n' || (c == '\r' && r.head? != some '\n')) = true
      · rw [lines_cons_of_break hb] at h
        cases ls with
        | nil =>
            obtain ⟨rfl, rfl⟩ := List.cons.inj h
            refine ⟨[], [c], rfl, unbroken_nil, ?_, iff_of_false (lines_ne_nil r) nofun⟩
            simp only [Bool.or_eq_true, beq_iff_eq, Bool.and_eq_true] at hb
            rcases hb with rfl | ⟨rfl, -⟩ <;> simp [breaks]
        | cons x ls => exact ih _ (List.cons.inj h).2
      · obtain ⟨l₀, ls₀, hl₀⟩ := List.exists_cons_of_ne_nil (lines_ne_nil r)
        rw [lines_cons_of_not_break hb hl₀] at h
        cases ls with
        | cons x ls =>
            obtain ⟨rfl, rfl⟩ := List.cons.inj h
            exact ih (l₀ :: ls) hl₀
        | nil =>
            obtain ⟨rfl, rfl⟩ := List.cons.inj h
            rcases isLineBreak_of_not_break hb with hc | ⟨rfl, t, rfl⟩
            · obtain ⟨body, close, rfl, hu, hcl, hrs⟩ := ih [] hl₀
              exact ⟨c :: body, close, rfl, hu.cons hc, hcl, hrs⟩
            · rw [lines_cons_of_break rfl] at hl₀
              obtain ⟨rfl, rfl⟩ := List.cons.inj hl₀
              exact ⟨[], ['\r', '\n'], rfl, unbroken_nil, by simp [breaks],
                iff_of_false (lines_ne_nil t) nofun⟩

/-- What has no line break ends on a line before the line does. -/
theorem exists_of_append_eq_line {b c body close : Text} (hb : Unbroken b) (hc : close ∈ breaks)
    (h : b ++ c = body ++ close) : ∃ c', body = b ++ c' := by
  rcases List.append_eq_append_iff.1 h with ⟨d, hd, -⟩ | ⟨d, rfl, hd⟩
  · exact ⟨d, hd⟩
  · cases d with
    | nil => exact ⟨[], by simp⟩
    | cons x d =>
        have hx := hb x (List.mem_append_right _ List.mem_cons_self)
        simp only [breaks, List.mem_cons, List.not_mem_nil, or_false] at hc
        rcases hc with rfl | rfl | rfl | rfl
        · cases hd
        all_goals
          obtain ⟨rfl, -⟩ := List.cons.inj hd
          cases hx

/-- Text that is cut anywhere but inside `\r\n` is cut inside a line, before what ends it, or behind
the last one. -/
theorem exists_lines_split {q r : Text} (h : ¬ (q.getLast? = some '\r' ∧ r.head? = some '\n')) :
    ∃ ls b c rs, lines (q ++ r) = ls ++ (b ++ c) :: rs ∧ q = ls.flatten ++ b ∧ Unbroken b ∧
      (rs = [] ∨ c ≠ []) := by
  induction q with
  | nil =>
      obtain ⟨l, rs, hl⟩ := List.exists_cons_of_ne_nil (lines_ne_nil r)
      refine ⟨[], [], l, rs, hl, rfl, unbroken_nil, ?_⟩
      obtain ⟨body, close, rfl, -, -, hrs⟩ := exists_body_close [] hl
      by_cases hr : rs = []
      · exact .inl hr
      · exact .inr (List.append_ne_nil_of_right_ne_nil _ (mt hrs.2 hr))
  | cons d q ih =>
      have hq : ¬ (q.getLast? = some '\r' ∧ r.head? = some '\n') := by
        rintro ⟨hl, hr⟩
        refine h ⟨?_, hr⟩
        rw [List.getLast?_cons, hl]
        rfl
      obtain ⟨ls, b, c, rs, hl, rfl, hb, hc⟩ := ih hq
      by_cases hd : (d == '\n' || (d == '\r' && (ls.flatten ++ b ++ r).head? != some '\n')) = true
      · exact ⟨[d] :: ls, b, c, rs, by rw [List.cons_append, lines_cons_of_break hd, hl]; rfl, rfl,
          hb, hc⟩
      cases ls with
      | cons l ls =>
          exact ⟨(d :: l) :: ls, b, c, rs,
            by rw [List.cons_append, lines_cons_of_not_break hd hl]; rfl, rfl, hb, hc⟩
      | nil =>
          refine ⟨[], d :: b, c, rs, ?_, rfl, hb.cons ?_, hc⟩
          · rw [List.cons_append, lines_cons_of_not_break hd hl]
            rfl
          rcases isLineBreak_of_not_break hd with hd | ⟨rfl, t, ht⟩
          · exact hd
          -- the first of two line breaks would have the other behind it, on its line or cut off
          cases b with
          | nil => exact absurd ⟨rfl, congrArg List.head? ht⟩ h
          | cons e b =>
              obtain ⟨rfl, -⟩ := List.cons.inj ht
              exact absurd (List.forall_mem_cons.1 hb).1 (by decide)

end Text

open Text

theorem Line.getElem_layOut (n : Nat) (ls : List Text) {i : Nat} (hi : i < (layOut n ls).length)
    (hi' : i < ls.length) :
    (layOut n ls)[i] = ⟨n + Text.size (ls.take i).flatten, ls[i]⟩ := by
  induction ls generalizing n i with
  | nil => exact absurd hi' (Nat.not_lt_zero _)
  | cons l ls ih =>
      cases i with
      | zero => rfl
      | succ i =>
          have hi : i < (layOut (n + l.size) ls).length := Nat.lt_of_succ_lt_succ hi
          show (layOut (n + l.size) ls)[i] = _
          rw [ih _ hi (Nat.lt_of_succ_lt_succ hi'), List.take_succ_cons, List.flatten_cons,
            size_append, Nat.add_assoc]
          rfl

theorem Line.length_layOut (n : Nat) (ls : List Text) : (layOut n ls).length = ls.length := by
  induction ls generalizing n with
  | nil => rfl
  | cons l ls ih => exact congrArg Nat.succ (ih _)

namespace SourceText

variable {s : SourceText} {l : Text} {ls rs : List Text}

theorem size_table (s : SourceText) : s.table.size = s.chars.lines.length := by
  rw [s.table_eq, List.size_toArray, Line.length_layOut]

theorem getElem?_table (h : s.chars.lines = ls ++ l :: rs) :
    s.table[ls.length]? = some ⟨Text.size ls.flatten, l⟩ := by
  have hl : ls.length < s.chars.lines.length := by
    rw [h, List.length_append, List.length_cons]
    omega
  rw [s.table_eq, List.getElem?_toArray, List.getElem?_eq_getElem (by rwa [Line.length_layOut]),
    Line.getElem_layOut _ _ _ hl, Nat.zero_add]
  simp only [h, List.take_left', List.getElem_append_right (Nat.le_refl _), Nat.sub_self,
    List.getElem_cons_zero]

theorem size_eq (h : s.chars.lines = ls ++ l :: rs) :
    s.size = Text.size ls.flatten + (l.size + Text.size rs.flatten) := by
  rw [size, ← flatten_lines s.chars, h, List.flatten_append, List.flatten_cons, size_append,
    size_append]

/-- The lines that start at or before an offset are those up to the one that holds it. -/
theorem lineIndex_eq (h : s.chars.lines = ls ++ l :: rs) {o : Nat} (ho : Text.size ls.flatten ≤ o)
    (ho' : rs = [] ∨ o < Text.size ls.flatten + l.size) : s.lineIndex o = ls.length := by
  have hsize : s.chars.lines.length = ls.length + (rs.length + 1) := by
    rw [h, List.length_append, List.length_cons]
  have hp : partitionPoint (fun l => decide (l.start ≤ o)) s.table = ls.length + 1 := by
    refine partitionPoint_eq (by rw [size_table, hsize]; omega) fun i hi => ?_
    have hi' : i < s.chars.lines.length := by rwa [← size_table]
    have hg : s.table[i].start = Text.size (s.chars.lines.take i).flatten := by
      simp only [s.table_eq, List.getElem_toArray]
      rw [Line.getElem_layOut _ _ _ hi', Nat.zero_add]
    rw [decide_eq_true_eq, hg, h, List.take_append]
    rcases Nat.lt_or_ge ls.length i with hlt | hle
    · -- a line behind starts behind the whole line
      refine iff_of_false ?_ (by omega)
      have hrs : rs ≠ [] := by
        rintro rfl
        rw [List.length_nil] at hsize
        omega
      obtain ⟨j, hj⟩ : ∃ j, i - ls.length = j + 1 := ⟨i - ls.length - 1, by omega⟩
      rw [hj, List.take_of_length_le (Nat.le_of_lt hlt), List.take_succ_cons, List.flatten_append,
        List.flatten_cons, size_append, size_append]
      have := ho'.resolve_left hrs
      omega
    · refine iff_of_true ?_ (by omega)
      have hs : Text.size ls.flatten =
          Text.size (ls.take i).flatten + Text.size (ls.drop i).flatten := by
        rw [← size_append, ← List.flatten_append, List.take_append_drop]
      rw [Nat.sub_eq_zero_of_le hle, List.take_zero, List.append_nil]
      omega
  rw [lineIndex, hp, Nat.add_sub_cancel]

/-- The position of a cut inside a line. -/
theorem position_eq {b c : Text} (h : s.chars.lines = ls ++ (b ++ c) :: rs)
    (hc : rs = [] ∨ c ≠ []) :
    s.position (Text.size ls.flatten + b.size) =
      ⟨ls.length % Position.bound, b.units % Position.bound⟩ := by
  have hs := size_eq h
  rw [size_append] at hs
  have hi : s.lineIndex (Text.size ls.flatten + b.size) = ls.length := by
    refine lineIndex_eq h (Nat.le_add_right _ _) (hc.imp id fun hc => ?_)
    rw [size_append]
    have := size_pos hc
    omega
  rw [position]
  simp only [Nat.min_eq_left (show Text.size ls.flatten + b.size ≤ s.size by omega), hi,
    getElem?_table h, Nat.add_sub_cancel_left, unitsBefore_size]

theorem offset?_eq (h : s.chars.lines = ls ++ l :: rs) (n : Nat) :
    s.offset? ⟨ls.length, n⟩ = some (Text.size ls.flatten + l.bytesToUnit n) := by
  rw [offset?, getElem?_table h]
  rfl

theorem offset?_eq_none {p : Position} : s.offset? p = none ↔ s.chars.lines.length ≤ p.line := by
  rw [offset?, Option.map_eq_none_iff, Array.getElem?_eq_none_iff, size_table]

/-- A position on a line before another has an offset before that line. -/
theorem offset?_lt {l₁ : Text} {ls₁ ls₂ : List Text}
    (h : s.chars.lines = ls₁ ++ l₁ :: (ls₂ ++ l :: rs)) (n : Nat) :
    ∃ o, s.offset? ⟨ls₁.length, n⟩ = some o ∧ o < Text.size (ls₁ ++ l₁ :: ls₂).flatten := by
  obtain ⟨body, close, rfl, hb, hc, hr⟩ := exists_body_close ls₁ h
  obtain ⟨b, c, rfl, hn, -, -⟩ := bytesToUnit_least hb hc n
  have hclose := size_pos (mt hr.2 (List.append_ne_nil_of_right_ne_nil _ (List.cons_ne_nil _ _)))
  refine ⟨_, offset?_eq h n, ?_⟩
  rw [hn, List.flatten_append, List.flatten_cons]
  simp only [size_append]
  omega

/-- A cut inside a line is found again exactly if a position has room for the number of the line. -/
theorem offset?_position_iff {b c : Text} (h : s.chars.lines = ls ++ (b ++ c) :: rs)
    (hb : Unbroken b) (hc : rs = [] ∨ c ≠ []) (hu : b.units < Position.bound) :
    s.offset? (s.position (Text.size ls.flatten + b.size)) =
      some (Text.size ls.flatten + b.size) ↔ ls.length < Position.bound := by
  rw [position_eq h hc, Nat.mod_eq_of_lt hu]
  constructor
  · intro ho
    by_contra hle
    -- the low bits number a line before
    have hlt : ls.length % Position.bound < ls.length :=
      Nat.lt_of_lt_of_le (Nat.mod_lt _ (by decide)) (Nat.le_of_not_lt hle)
    have hsplit : ls = ls.take (ls.length % Position.bound) ++
        ls[ls.length % Position.bound] :: ls.drop (ls.length % Position.bound + 1) := by
      rw [← List.drop_eq_getElem_cons hlt, List.take_append_drop]
    have hlen := List.length_take_of_le (Nat.le_of_lt hlt)
    have h' := h
    rw [hsplit, List.append_assoc, List.cons_append] at h'
    obtain ⟨o, hos, hol⟩ := offset?_lt h' b.units
    rw [hlen, ho] at hos
    rw [← hsplit, ← Option.some.inj hos] at hol
    exact Nat.not_lt.2 (Nat.le_add_right _ _) hol
  · intro hlt
    rw [Nat.mod_eq_of_lt hlt, offset?_eq h, bytesToUnit_units hb]

/-- Line `i` starts at an offset, has the characters `body` up to its end, and ends with `close`,
which is nothing on the last line only. -/
def LineAt (s : SourceText) (i start : Nat) (body close : Text) : Prop :=
  ∃ ls rs, s.chars.lines = ls ++ (body ++ close) :: rs ∧ ls.length = i ∧
    Text.size ls.flatten = start ∧ Unbroken body ∧ close ∈ breaks ∧ (rs = [] ↔ close = [])

theorem exists_lineAt {i : Nat} (hi : i < s.chars.lines.length) :
    ∃ start body close, s.LineAt i start body close := by
  have h : s.chars.lines =
      s.chars.lines.take i ++ s.chars.lines[i] :: s.chars.lines.drop (i + 1) := by
    rw [← List.drop_eq_getElem_cons hi, List.take_append_drop]
  obtain ⟨body, close, hl, hb, hc, hr⟩ := exists_body_close _ h
  rw [hl] at h
  exact ⟨_, body, close, _, _, h, List.length_take_of_le (Nat.le_of_lt hi), rfl, hb, hc, hr⟩

/-- A cut anywhere but inside `\r\n` is on a line. -/
theorem exists_lineAt_of_cut {q r : Text} (hq : s.chars = q ++ r)
    (hcut : ¬ (q.getLast? = some '\r' ∧ r.head? = some '\n')) :
    ∃ i start body close b c, s.LineAt i start body close ∧ body = b ++ c ∧
      q.size = start + b.size := by
  obtain ⟨ls, b, c, rs, hl, rfl, hb, hc⟩ := exists_lines_split hcut
  rw [← hq] at hl
  obtain ⟨body, close, hbc, hu, hcl, hr⟩ := exists_body_close _ hl
  obtain ⟨c', rfl⟩ := exists_of_append_eq_line hb hcl hbc
  exact ⟨_, _, _, close, b, c', ⟨ls, rs, by rw [hl, hbc], rfl, rfl, hu, hcl, hr⟩, rfl,
    size_append _ _⟩

namespace LineAt

variable {i start : Nat} {body close b c : Text}

/-- What is before and behind a cut inside a line. -/
theorem cut (h : s.LineAt i start body close) (hbc : body = b ++ c) :
    ∃ ls rs c', s.chars.lines = ls ++ (b ++ c') :: rs ∧ ls.length = i ∧
      Text.size ls.flatten = start ∧ Unbroken b ∧ (rs = [] ∨ c' ≠ []) := by
  obtain ⟨ls, rs, hl, hi, hs, hb, -, hr⟩ := h
  rw [hbc, List.append_assoc] at hl
  refine ⟨ls, rs, c ++ close, hl, hi, hs, fun x hx => hb x ?_, ?_⟩
  · rw [hbc]
    exact List.mem_append_left _ hx
  · by_cases hrs : rs = []
    · exact .inl hrs
    · exact .inr (List.append_ne_nil_of_right_ne_nil _ (mt hr.2 hrs))

theorem units_lt (h : s.LineAt i start body close) (hbc : body = b ++ c)
    (hs : ∀ l ∈ s.chars.lines, l.units < Position.bound) : b.units < Position.bound := by
  obtain ⟨ls, rs, c', hl, -⟩ := h.cut hbc
  have hu := hs (b ++ c') (by rw [hl]; exact List.mem_append_right _ List.mem_cons_self)
  rw [units_append] at hu
  omega

theorem position (h : s.LineAt i start body close) (hbc : body = b ++ c)
    (hs : ∀ l ∈ s.chars.lines, l.units < Position.bound) :
    s.position (start + b.size) = ⟨i % Position.bound, b.units⟩ := by
  have hu := h.units_lt hbc hs
  obtain ⟨ls, rs, c', hl, rfl, rfl, -, hc⟩ := h.cut hbc
  rw [position_eq hl hc, Nat.mod_eq_of_lt hu]

theorem offset?_position (h : s.LineAt i start body close) (hbc : body = b ++ c)
    (hs : ∀ l ∈ s.chars.lines, l.units < Position.bound) :
    s.offset? (s.position (start + b.size)) = some (start + b.size) ↔ i < Position.bound := by
  have hu := h.units_lt hbc hs
  obtain ⟨ls, rs, c', hl, rfl, rfl, hb, hc⟩ := h.cut hbc
  exact offset?_position_iff hl hb hc hu

end LineAt

/-- Positions and offsets are inverse. An offset that cuts neither a character nor `\r\n` is on a
line, and it is found again from its position exactly if the number of the line fits a position.
A position has no offset exactly if there is no such line. Otherwise its offset is the least on the
line, before what ends it, with at least its column, or where the line ends if there is none; the
offsets on a line have the position that the line and the code units before them say. -/
theorem position_offset (s : SourceText)
    (hs : ∀ l ∈ s.chars.lines, l.units < Position.bound) :
    (∀ q r, s.chars = q ++ r → ¬ (q.getLast? = some '\r' ∧ r.head? = some '\n') →
      ∃ i start body close b c, s.LineAt i start body close ∧ body = b ++ c ∧
        q.size = start + b.size ∧
        (s.offset? (s.position q.size) = some q.size ↔ i < Position.bound)) ∧
      (∀ p, s.offset? p = none ↔ s.chars.lines.length ≤ p.line) ∧
      (∀ i < s.chars.lines.length, ∃ start body close, s.LineAt i start body close) ∧
      ∀ i start body close, s.LineAt i start body close →
        (∀ b c, body = b ++ c → b.units < Position.bound ∧
          s.position (start + b.size) = ⟨i % Position.bound, b.units⟩) ∧
        ∀ n, ∃ b c, body = b ++ c ∧ s.offset? ⟨i, n⟩ = some (start + b.size) ∧
          (n ≤ b.units ∨ c = []) ∧
          ∀ b' c', body = b' ++ c' → n ≤ b'.units → b.size ≤ b'.size := by
  refine ⟨fun q r hq hcut => ?_, fun p => offset?_eq_none, fun i hi => exists_lineAt hi, ?_⟩
  · obtain ⟨i, start, body, close, b, c, h, hbc, hsize⟩ := exists_lineAt_of_cut hq hcut
    refine ⟨i, start, body, close, b, c, h, hbc, hsize, ?_⟩
    rw [hsize]
    exact h.offset?_position hbc hs
  · intro i start body close h
    refine ⟨fun b c hbc => ⟨h.units_lt hbc hs, h.position hbc hs⟩, fun n => ?_⟩
    obtain ⟨ls, rs, hl, rfl, rfl, hb, hc, hr⟩ := h
    obtain ⟨b, c, hbc, hn, hu, hmin⟩ := bytesToUnit_least hb hc n
    exact ⟨b, c, hbc, by rw [offset?_eq hl, hn], hu, hmin⟩

/-- Behind a character of two code units, on a line that `\r\n` ends. -/
theorem position_offset_two_units :
    (∀ l ∈ (ofText ['a', '𝕏', '\r', '\n'] 0).chars.lines, l.units < Position.bound) ∧
      ∃ i start body close b c,
        (ofText ['a', '𝕏', '\r', '\n'] 0).LineAt i start body close ∧ body = b ++ c ∧
        5 = start + b.size ∧
        ((ofText ['a', '𝕏', '\r', '\n'] 0).offset?
          ((ofText ['a', '𝕏', '\r', '\n'] 0).position 5) = some 5 ↔ i < Position.bound) :=
  ⟨by decide, (position_offset _ (by decide)).1 ['a', '𝕏'] ['\r', '\n'] rfl (by decide)⟩

/-! ## More lines than positions can number -/

theorem lines_replicate (n : Nat) :
    Text.lines (.replicate n '\n') = .replicate n ['\n'] ++ [[]] := by
  induction n with
  | zero => rfl
  | succ n ih =>
      rw [List.replicate_succ, lines_cons_of_break rfl, ih]
      rfl

theorem size_replicate (n : Nat) : Text.size (.replicate n '\n') = n := by
  induction n with
  | zero => rfl
  | succ n ih =>
      rw [List.replicate_succ, size_cons, ih]
      exact Nat.add_comm 1 n

/-- The end of a text of line feeds is found again exactly if their number fits a position. -/
theorem offset?_position_replicate (n : Nat) :
    (ofText (.replicate n '\n') 0).offset? ((ofText (.replicate n '\n') 0).position n) = some n ↔
      n < Position.bound := by
  have h := offset?_position_iff (s := ofText (.replicate n '\n') 0) (b := []) (c := [])
    (lines_replicate n) unbroken_nil (.inl rfl) (by decide)
  rwa [List.flatten_replicate_singleton, size_replicate, List.length_replicate] at h

theorem offset?_position_replicate_ne {n : Nat} (hn : Position.bound ≤ n) :
    (∀ l ∈ (ofText (.replicate n '\n') 0).chars.lines, l.units < Position.bound) ∧
      ∃ q r, (ofText (.replicate n '\n') 0).chars = q ++ r ∧
        ¬ (q.getLast? = some '\r' ∧ r.head? = some '\n') ∧
        (ofText (.replicate n '\n') 0).offset? ((ofText (.replicate n '\n') 0).position q.size) ≠
          some q.size := by
  refine ⟨fun l hl => ?_, .replicate n '\n', [], (List.append_nil _).symm, nofun, ?_⟩
  · have hl : l ∈ List.replicate n ['\n'] ++ [[]] := lines_replicate n ▸ hl
    rcases List.mem_append.1 hl with hl | hl
    · obtain rfl := List.eq_of_mem_replicate hl
      decide
    · obtain rfl := List.mem_singleton.1 hl
      decide
  · rw [size_replicate]
    exact mt (offset?_position_replicate n).1 (Nat.not_lt.2 hn)

/-- With one line more than positions can number, each shorter than these, the end of the text is
not found again. -/
theorem offset_lost_behind_bound :
    ∃ s, s = ofText (.replicate Position.bound '\n') 0 ∧
      (∀ l ∈ s.chars.lines, l.units < Position.bound) ∧
      ∃ q r, s.chars = q ++ r ∧ ¬ (q.getLast? = some '\r' ∧ r.head? = some '\n') ∧
        s.offset? (s.position q.size) ≠ some q.size :=
  ⟨_, rfl, offset?_position_replicate_ne (Nat.le_refl _)⟩

end SourceText

end Xref
