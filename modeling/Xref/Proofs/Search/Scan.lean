import Mathlib.Data.List.Sort
import Xref.Proofs.Identifier.Occurrence
import Xref.Proofs.Tree.Parse
import Xref.Search.Scan

/-!
# What the scan finds

The scan goes from one occurrence of a name to the next and passes over the rest of the token it
finds there. An occurrence that is no token by itself may still begin before a token and end inside
it, and then the scan goes on behind the beginning of that token and never looks at it. Apart from
this the scan misses nothing: it finds the matching tokens that are written as they are named and
that no occurrence it visits straddles (`Tree.scanFrom_eq`).

The argument is one step long. The next occurrence lies at or before the next matching token. At it,
the tree finds this very token there; before it, the step ends at or before the token unless the
occurrence straddles it, because the token found at the occurrence ends before the next begins.
-/

namespace Xref

/-- The occurrence begins before the token and ends inside it or behind it. -/
def Occurrence.straddles (o : Occurrence) (x : Token) : Bool :=
  o.start < x.span.start && x.span.start < o.start + o.size

namespace Tree

/-- The tokens are in order, and one that the text has stands where its span says. -/
structure Standing (t : Tree) : Prop where
  inOrder : t.InOrder
  located : ∀ x ∈ t.tokens, (x.token.isMissing = true ∧ x.token.span.stop = x.token.span.start) ∨
    (x.token.isMissing = false ∧ ∃ pre post : Text,
      t.source.chars = pre ++ x.token.text ++ post ∧ pre.size = x.token.span.start)

theorem standing_parse (l : Language) (s : SourceText) : (parse l s).Standing where
  inOrder := inOrder_parse l s
  located x hx := by
    rcases stands_of_mem hx with ⟨hm, k, hk⟩ | ⟨hm, pre, hp, hs⟩
    · refine .inl ⟨hm, ?_⟩
      rw [Token.span, hk]
      rfl
    · obtain ⟨post, hw, -⟩ := hs.fresh
      exact .inr ⟨hm, pre, post, hw, hp⟩

/-- Two lists of tokens, each by number, with the same members. -/
theorem eq_of_mem_iff {xs ys : List PlacedToken}
    (hx : xs.Pairwise fun x y => x.token.id < y.token.id)
    (hy : ys.Pairwise fun x y => x.token.id < y.token.id) (h : ∀ x, x ∈ xs ↔ x ∈ ys) : xs = ys := by
  have : Std.Antisymm fun x y : PlacedToken => x.token.id < y.token.id :=
    ⟨fun _ _ h h' => absurd h (Nat.lt_asymm h')⟩
  have : Std.Irrefl fun x y : PlacedToken => x.token.id < y.token.id :=
    ⟨fun _ => Nat.lt_irrefl _⟩
  exact hx.eq_of_mem_iff hy h

theorem InOrder.filter {t : Tree} (ho : t.InOrder) (p : PlacedToken → Bool) :
    (t.tokens.toList.filter p).Pairwise fun x y => x.token.id < y.token.id :=
  (ho.imp And.left).filter p

/-! ## The occurrences visited -/

section

variable (t : Tree) (m : Comparison) (name : Text)

/-- The occurrences that the scan visits from an offset on. -/
def visits (start : Nat) : List Occurrence :=
  match _h : m.find? name t.source.chars start with
  | none => []
  | some o => o :: visits (afterHit o (t.findToken? o.start))
termination_by t.source.chars.size - start
decreasing_by
  have h1 := Comparison.find?_bounds _h
  have h2 := le_afterHit o (t.findToken? o.start)
  omega

/-- The token matches and no occurrence visited from the offset on straddles it. -/
def isSeen (start : Nat) (x : PlacedToken) : Bool :=
  x.token.matches m name && start ≤ x.token.span.start &&
    !(t.visits m name start).any (·.straddles x.token)

end

variable {t : Tree} {m : Comparison} {name : Text} {start : Nat} {o : Occurrence}

theorem visits_of_none (h : m.find? name t.source.chars start = none) :
    t.visits m name start = [] := by
  rw [visits.eq_def]
  split
  · rfl
  · next h' => rw [h] at h'; cases h'

theorem visits_of_some (h : m.find? name t.source.chars start = some o) :
    t.visits m name start = o :: t.visits m name (afterHit o (t.findToken? o.start)) := by
  rw [visits.eq_def]
  split
  · next h' => rw [h] at h'; cases h'
  · next h' => rw [h] at h'; rw [Option.some.inj h']

theorem scanFrom_of_none (h : m.find? name t.source.chars start = none) :
    t.scanFrom m name false start = .ok [] := by
  rw [scanFrom.eq_def]
  split
  · rfl
  · next h' => rw [h] at h'; cases h'

theorem scanFrom_of_some (h : m.find? name t.source.chars start = some o) :
    t.scanFrom m name false start =
      match t.findToken? o.start with
      | none => t.scanFrom m name false (afterHit o none)
      | some p =>
        if isHit m name o p then (t.scanFrom m name false (afterHit o (some p))).map (p :: ·)
        else t.scanFrom m name false (afterHit o (some p)) := by
  rw [scanFrom.eq_def]
  split
  · next h' => rw [h] at h'; cases h'
  · next o' h' =>
      rw [h] at h'
      obtain rfl := Option.some.inj h'
      simp only [Bool.false_eq_true, if_false]
      cases t.findToken? o.start <;> rfl

theorem start_le_of_mem_visits (h : o ∈ t.visits m name start) : start ≤ o.start := by
  induction start using visits.induct t m name with
  | case1 start hf =>
      rw [visits_of_none hf] at h
      cases h
  | case2 start o' hf ih =>
      have hb := Comparison.find?_bounds hf
      have ha := le_afterHit o' (t.findToken? o'.start)
      rw [visits_of_some hf] at h
      rcases List.mem_cons.1 h with rfl | h
      · exact hb.1
      · have := ih h
        omega

/-! ## One step -/

theorem matches_iff {x : Token} :
    x.matches m name = true ↔
      x.kind = .identifier ∧ x.isMissing = false ∧ m.key x.value = m.key name := by
  simp only [Token.matches, Token.isIdentifier, Bool.and_eq_true, beq_iff_eq,
    Bool.not_eq_true', Comparison.equal_iff_key_eq, and_assoc]

variable {x p : PlacedToken}

/-- A matching token that is written as it is named is an occurrence of the name. -/
theorem Standing.occurs (ht : t.Standing) (hn : name ≠ []) (hx : x ∈ t.tokens)
    (hm : x.token.matches m name = true) (hw : x.token.text = x.token.value) :
    x.token.text ≠ [] ∧ ∃ pre : Text, pre.size = x.token.span.start ∧
      m.Occurs (m.key name) t.source.chars pre x.token.text := by
  obtain ⟨-, hp, hk⟩ := matches_iff.1 hm
  rw [← hw] at hk
  refine ⟨?_, ?_⟩
  · intro h
    rw [h, Comparison.key_nil] at hk
    exact Comparison.key_ne_nil hn hk.symm
  · rcases ht.located x hx with ⟨hp', -⟩ | ⟨-, pre, post, hc, hs⟩
    · rw [hp] at hp'
      cases hp'
    · exact ⟨pre, hs, ⟨post, hc⟩, hk⟩

theorem Standing.start_le (ht : t.Standing) (hn : name ≠ []) (hx : x ∈ t.tokens)
    (hm : x.token.matches m name = true) (hw : x.token.text = x.token.value)
    (h : m.find? name t.source.chars start = some o) (hs : start ≤ x.token.span.start) :
    o.start ≤ x.token.span.start := by
  obtain ⟨-, pre, hp, ho⟩ := ht.occurs hn hx hm hw
  have hmin := (Comparison.find?_eq_some hn h).2 pre _ ho
  rw [hp] at hmin
  exact hmin hs

/-- At an occurrence where a matching token starts the token is found and is a hit. -/
theorem Standing.isHit_of_start_eq (ht : t.Standing) (hn : name ≠ []) (hx : x ∈ t.tokens)
    (hm : x.token.matches m name = true) (hw : x.token.text = x.token.value)
    (h : m.find? name t.source.chars start = some o) (hs : o.start = x.token.span.start) :
    t.findToken? o.start = some x ∧ isHit m name o x = true := by
  obtain ⟨hne, pre, hp, ⟨r, hr⟩, hk⟩ := ht.occurs hn hx hm hw
  obtain ⟨⟨q, u, ⟨⟨r', hr'⟩, hk'⟩, hq, hu⟩, -⟩ := Comparison.find?_eq_some hn h
  have hz := x.token.size_span
  constructor
  · refine findToken?_of_contains ht.inOrder hx (Nat.le_of_eq hs.symm) ?_
    have := Text.size_pos hne
    rw [Span.size] at hz
    omega
  · -- both pieces begin at the same place and have the key of the name
    have hqp : q = pre := by
      have hsize : q.size = pre.size := by omega
      rw [hr, List.append_assoc, List.append_assoc] at hr'
      obtain ⟨y, rfl, -⟩ := Comparison.exists_append_of_size_le hr' (Nat.le_of_eq hsize)
      rw [Text.size_append] at hsize
      rw [Text.size_eq_zero.1 (by omega : y.size = 0), List.append_nil]
    subst hqp
    have hur : x.token.text ++ r = u ++ r' := by
      rw [hr, List.append_assoc, List.append_assoc] at hr'
      exact List.append_cancel_left hr'
    have hsz := Comparison.size_eq_of_key_eq hur (hk.trans hk'.symm)
    simp only [isHit, Bool.and_eq_true, beq_iff_eq]
    exact ⟨⟨hs.symm, by omega⟩, hm⟩

/-- Behind an occurrence the scan goes on before the next token, unless the occurrence straddles
it. -/
theorem Standing.afterHit_le_iff (ht : t.Standing) (hx : x ∈ t.tokens)
    (h : o.start < x.token.span.start) :
    afterHit o (t.findToken? o.start) ≤ x.token.span.start ↔ o.straddles x.token = false := by
  have hp : ∀ p, t.findToken? o.start = some p → p.token.span.stop ≤ x.token.span.start := by
    intro p hp
    obtain ⟨hm, hs⟩ := mem_of_findToken? ht.inOrder hp
    exact ht.inOrder.stop_le hm hx (Nat.lt_of_le_of_lt hs h)
  have hs : o.straddles x.token = false ↔ o.start + o.size ≤ x.token.span.start := by
    simp [Occurrence.straddles, h]
  rw [hs]
  unfold afterHit
  split
  · exact Iff.rfl
  · next p hf =>
      have := hp p hf
      exact ⟨fun h => Nat.le_trans (Nat.le_max_left _ _) h, fun h => Nat.max_le.2 ⟨h, this⟩⟩

/-- Where the scan goes on is between two characters. -/
theorem Standing.boundary_afterHit (ht : t.Standing) (hn : name ≠ [])
    (h : m.find? name t.source.chars start = some o) :
    ∃ q r, t.source.chars = q ++ r ∧ Text.size q = afterHit o (t.findToken? o.start) := by
  obtain ⟨⟨q, u, ⟨⟨r, hr⟩, -⟩, hq, hu⟩, -⟩ := Comparison.find?_eq_some hn h
  have ho : ∃ q r, t.source.chars = q ++ r ∧ Text.size q = o.start + o.size :=
    ⟨q ++ u, r, hr, by rw [Text.size_append, hq, hu]⟩
  unfold afterHit
  split
  · exact ho
  · next p hf =>
      obtain ⟨hp, hle⟩ := mem_of_findToken? ht.inOrder hf
      rcases Nat.le_total p.token.span.stop (o.start + o.size) with hs | hs
      · rw [Nat.max_eq_left hs]
        exact ho
      · rw [Nat.max_eq_right hs]
        rcases ht.located p hp with ⟨-, he⟩ | ⟨-, pre, post, hc, hsz⟩
        · -- a token that the text lacks is no longer than the occurrence
          have := (Comparison.find?_bounds h).2.2
          omega
        · refine ⟨pre ++ p.token.text, post, hc, ?_⟩
          rw [Text.size_append, hsz]
          rfl

/-! ## The whole scan -/

theorem isSeen_iff :
    t.isSeen m name start x = true ↔ x.token.matches m name = true ∧
      start ≤ x.token.span.start ∧
        ∀ o ∈ t.visits m name start, o.straddles x.token = false := by
  simp only [isSeen, Bool.and_eq_true, decide_eq_true_eq, Bool.not_eq_true', List.any_eq_false,
    Bool.not_eq_true, and_assoc]

/-- Behind the occurrence that the scan is at, it sees the same tokens but the one there. -/
theorem Standing.isSeen_afterHit (ht : t.Standing) (hn : name ≠ []) (hx : x ∈ t.tokens)
    (hw : x.token.matches m name = true → x.token.text = x.token.value)
    (h : m.find? name t.source.chars start = some o) :
    t.isSeen m name (afterHit o (t.findToken? o.start)) x = true ↔
      t.isSeen m name start x = true ∧ o.start ≠ x.token.span.start := by
  obtain ⟨hso, -, hpos⟩ := Comparison.find?_bounds h
  have hnext := le_afterHit o (t.findToken? o.start)
  rw [isSeen_iff, isSeen_iff, visits_of_some h, List.forall_mem_cons]
  constructor
  · rintro ⟨hm, hle, hv⟩
    have hlt : o.start < x.token.span.start := by omega
    exact ⟨⟨hm, by omega, (ht.afterHit_le_iff hx hlt).1 hle, hv⟩, Nat.ne_of_lt hlt⟩
  · rintro ⟨⟨hm, hle, ho, hv⟩, hne⟩
    have hlt := Nat.lt_of_le_of_ne (ht.start_le hn hx hm (hw hm) h hle) hne
    exact ⟨hm, (ht.afterHit_le_iff hx hlt).2 ho, hv⟩

theorem isSeen_of_isHit (h : m.find? name t.source.chars start = some o)
    (hh : isHit m name o p = true) : t.isSeen m name start p = true := by
  simp only [isHit, Bool.and_eq_true, beq_iff_eq] at hh
  obtain ⟨⟨hs, -⟩, hm⟩ := hh
  refine isSeen_iff.2 ⟨hm, ?_, fun o' ho' => ?_⟩
  · rw [hs]
    exact (Comparison.find?_bounds h).1
  · have hle : o.start ≤ o'.start := by
      rw [visits_of_some h] at ho'
      rcases List.mem_cons.1 ho' with rfl | ho'
      · exact Nat.le_refl _
      · have := start_le_of_mem_visits ho'
        have := le_afterHit o (t.findToken? o.start)
        omega
    rw [Occurrence.straddles, decide_eq_false (by omega), Bool.false_and]

theorem Standing.cons_filter (ht : t.Standing) (hn : name ≠ [])
    (hw : ∀ x ∈ t.tokens, x.token.matches m name = true → x.token.text = x.token.value)
    (h : m.find? name t.source.chars start = some o) (hp : t.findToken? o.start = some p)
    (hh : isHit m name o p = true) :
    p :: t.tokens.toList.filter (t.isSeen m name (afterHit o (some p))) =
      t.tokens.toList.filter (t.isSeen m name start) := by
  have hstep (x : PlacedToken) (hx : x ∈ t.tokens) := ht.isSeen_afterHit hn hx (hw x hx) h
  rw [hp] at hstep
  obtain ⟨hpm, -⟩ := mem_of_findToken? ht.inOrder hp
  have hps : p.token.span.start = o.start := by
    simp only [isHit, Bool.and_eq_true, beq_iff_eq] at hh
    exact hh.1.1
  refine eq_of_mem_iff (.cons (fun x hx => ?_) (ht.inOrder.filter _)) (ht.inOrder.filter _)
    fun x => ?_
  · obtain ⟨hx, hs⟩ := List.mem_filter.1 hx
    rw [Array.mem_toList_iff] at hx
    have hle := (isSeen_iff.1 hs).2.1
    have := le_afterHit o (some p)
    have := (Comparison.find?_bounds h).2.2
    rcases ht.inOrder.cases hpm hx with rfl | ⟨hid, -⟩ | ⟨-, hs⟩
    · omega
    · exact hid
    · have := x.token.span.start_le_stop
      omega
  · rw [List.mem_cons, List.mem_filter, List.mem_filter, Array.mem_toList_iff]
    constructor
    · rintro (rfl | ⟨hx, hs⟩)
      · exact ⟨hpm, isSeen_of_isHit h hh⟩
      · exact ⟨hx, ((hstep x hx).1 hs).1⟩
    · rintro ⟨hx, hs⟩
      by_cases he : o.start = x.token.span.start
      · have hm := (isSeen_iff.1 hs).1
        have hfind := (ht.isHit_of_start_eq hn hx hm (hw x hx hm) h he).1
        rw [hp] at hfind
        exact .inl (Option.some.inj hfind).symm
      · exact .inr ⟨hx, (hstep x hx).2 ⟨hs, he⟩⟩

theorem Standing.filter_afterHit (ht : t.Standing) (hn : name ≠ [])
    (hw : ∀ x ∈ t.tokens, x.token.matches m name = true → x.token.text = x.token.value)
    (h : m.find? name t.source.chars start = some o)
    (hno : ∀ p, t.findToken? o.start = some p → isHit m name o p = false) :
    t.tokens.toList.filter (t.isSeen m name (afterHit o (t.findToken? o.start))) =
      t.tokens.toList.filter (t.isSeen m name start) := by
  refine List.filter_congr fun x hx => ?_
  rw [Array.mem_toList_iff] at hx
  rw [Bool.eq_iff_iff, ht.isSeen_afterHit hn hx (hw x hx) h]
  refine ⟨And.left, fun hs => ⟨hs, fun he => ?_⟩⟩
  have hm := (isSeen_iff.1 hs).1
  obtain ⟨hfind, hhit⟩ := ht.isHit_of_start_eq hn hx hm (hw x hx hm) h he
  rw [hno x hfind] at hhit
  cases hhit

/-- The scan finds the matching tokens that no occurrence it visits straddles, when they are written
as they are named. -/
theorem scanFrom_eq (ht : t.Standing) (hn : name ≠ [])
    (hw : ∀ x ∈ t.tokens, x.token.matches m name = true → x.token.text = x.token.value)
    (hb : ∃ q r, t.source.chars = q ++ r ∧ Text.size q = start) :
    t.scanFrom m name false start = .ok (t.tokens.toList.filter (t.isSeen m name start)) := by
  induction start using visits.induct t m name with
  | case1 start hf =>
      have he : t.tokens.toList.filter (t.isSeen m name start) = [] := by
        refine List.filter_eq_nil_iff.2 fun x hx hs => ?_
        obtain ⟨hm, hle, -⟩ := isSeen_iff.1 hs
        rw [Array.mem_toList_iff] at hx
        obtain ⟨-, pre, hp, ho⟩ := ht.occurs hn hx hm (hw x hx hm)
        have := Comparison.find?_eq_none hn hf hb ho
        omega
      rw [scanFrom_of_none hf, he]
  | case2 start o hf ih =>
      have hi := ih (ht.boundary_afterHit hn hf)
      have hmiss := ht.filter_afterHit hn hw hf
      rw [scanFrom_of_some hf]
      cases hp : t.findToken? o.start with
      | none =>
          rw [hp] at hi hmiss
          have hno : ∀ p, none = some p → isHit m name o p = false := fun p h => by cases h
          dsimp only
          rw [hi, hmiss hno]
      | some p =>
          rw [hp] at hi hmiss
          dsimp only
          split
          · next hh =>
              rw [hi, ← ht.cons_filter hn hw hf hp hh]
              rfl
          · next hh =>
              have hno : ∀ q, some p = some q → isHit m name o q = false := by
                rintro q hq
                obtain rfl := Option.some.inj hq
                exact Bool.eq_false_iff.2 hh
              rw [hi, hmiss hno]

end Tree

end Xref
