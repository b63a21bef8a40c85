import Xref.Proofs.Grammar.VisualBasic

/-!
# A line of Visual Basic moves one logical line

The end of a line is not a lexeme, so every look ahead of the parser has to ask for it. What is
moved after such a question is a lexeme of the line (`Cursor.Within`): the rest of a line,
parameters, the arguments of an initializer. Four looks ahead do not ask, and the moves behind them
may take what stands on the line below (`one_line_moved`):

* `Imports` and a name look for `=` (`State.AliasBelow`);
* `Sub` looks for `New` (`State.NewBelow`);
* an attribute looks for its end, which may be an operator that begins a line (`State.HeadBelow`);
* `Me`, `MyBase` and `MyClass` in a constructor look for `.New`, of which only `New` has to go on
  with its line (`State.CallBelow`).

The attributes and modifiers of a head are counted first and then moved. An initializer among them
is moved as a whole for one of them, so the moves go on behind the head (`State.CallInHead`).
-/

namespace Xref

namespace Cursor

variable {b c : Cursor} {i j : Nat}

/-! ## The line ahead -/

/-- The number of lexemes on the line ahead: the next one, and those that go on with its line. -/
def lineLength (c : Cursor) : Nat :=
  match c.ahead with
  | [] => 0
  | _ :: ls => ls.findIdx (·.startsLine) + 1

theorem lineLength_cons {l : Lexeme} {ls : List Lexeme} (h : c.ahead = l :: ls) :
    c.lineLength = ls.findIdx (·.startsLine) + 1 := by
  rw [lineLength, h]

theorem lineLength_pos (h : c.ahead ≠ []) : 0 < c.lineLength := by
  obtain ⟨l, ls, ha⟩ := List.exists_cons_of_ne_nil h
  rw [lineLength_cons ha]
  exact Nat.succ_pos _

theorem continuesAt_lineLength (c : Cursor) : c.continuesAt c.lineLength = false := by
  cases ha : c.ahead with
  | nil => rw [continuesAt, ha]; rfl
  | cons l ls =>
      rw [continuesAt, lineLength_cons ha, ha, List.getElem?_cons_succ]
      cases hl : ls[ls.findIdx (·.startsLine)]? with
      | none => rfl
      | some l => exact congrArg (!·) (List.findIdx_of_getElem?_eq_some hl)

theorem startsLine_lineLength (h : c.lineLength < c.ahead.length) :
    c.ahead[c.lineLength].startsLine = true := by
  have hc := c.continuesAt_lineLength
  rwa [continuesAt, List.getElem?_eq_getElem h, Bool.not_eq_false'] at hc

theorem continuesAt_of_lt (h : i + 1 < c.lineLength) : c.continuesAt (i + 1) = true := by
  cases ha : c.ahead with
  | nil =>
      rw [lineLength, ha] at h
      cases h
  | cons l ls =>
      rw [lineLength_cons ha] at h
      have hi : i < ls.findIdx (·.startsLine) := Nat.lt_of_succ_lt_succ h
      have hl := Nat.lt_of_lt_of_le hi List.findIdx_le_length
      rw [continuesAt, ha, List.getElem?_cons_succ, List.getElem?_eq_getElem hl]
      exact congrArg (!·) (List.not_of_lt_findIdx hi)

theorem ne_lineLength (h : c.continuesAt i = true) : i ≠ c.lineLength := by
  rintro rfl
  rw [continuesAt_lineLength] at h
  cases h

/-- Lexemes moved from the line ahead on go beyond it exactly if one behind the first of them
begins a line. -/
theorem exists_startsLine_iff {moved rest : List Lexeme} (h : c.ahead = moved ++ rest) :
    (∃ l ∈ moved.tail, l.startsLine = true) ↔ c.lineLength < moved.length := by
  cases moved with
  | nil => exact iff_of_false (fun ⟨_, hl, _⟩ => List.not_mem_nil hl) (Nat.not_lt_zero _)
  | cons m ms =>
      rw [List.cons_append] at h
      rw [lineLength_cons h, List.findIdx_append, List.length_cons, Nat.succ_lt_succ_iff,
        List.tail_cons, ← List.findIdx_lt_length]
      split
      · next hm => exact iff_of_true hm hm
      · next hm => exact iff_of_false hm (by omega)

/-! ## Inside a line -/

theorem kind_of_drop (h : c.ahead = b.ahead.drop j) (i : Nat) : c.kind i = b.kind (j + i) := by
  rw [kind, kind, h, List.getElem?_drop]

theorem continuesAt_of_drop (h : c.ahead = b.ahead.drop j) (i : Nat) :
    c.continuesAt i = b.continuesAt (j + i) := by
  rw [continuesAt, continuesAt, h, List.getElem?_drop]

/-- What was moved since `b` is of the line that was ahead there. -/
def Within (b c : Cursor) : Prop :=
  ∃ j ≤ b.lineLength, c.ahead = b.ahead.drop j

/-- The next lexeme is of the line that was ahead at `b`. -/
def Inside (b c : Cursor) : Prop :=
  ∃ j < b.lineLength, c.ahead = b.ahead.drop j

theorem Within.inside (h : Within b c) (hc : c.continuesAt 0 = true) : Inside b c := by
  obtain ⟨j, hj, ha⟩ := h
  rw [continuesAt_of_drop ha, Nat.add_zero] at hc
  exact ⟨j, Nat.lt_of_le_of_ne hj (ne_lineLength hc), ha⟩

theorem Inside.tail (h : Inside b c) {c' : Cursor} (hc : c'.ahead = c.ahead.tail) :
    Within b c' := by
  obtain ⟨j, hj, ha⟩ := h
  exact ⟨j + 1, hj, by rw [hc, ha, List.tail_drop]⟩

theorem Inside.bump (h : Inside b c) : Within b c.bump :=
  h.tail (ahead_bump c)

theorem inside_of_ahead (h : b.ahead ≠ []) (ha : c.ahead = b.ahead) : Inside b c :=
  ⟨0, lineLength_pos h, ha⟩

/-- An initializer begins at a lexeme ahead, up to where it calls. -/
def Calls (c : Cursor) (i : Nat) : Prop :=
  (c.kind i = .meKeyword ∨ c.kind i = .myBaseKeyword ∨ c.kind i = .myClassKeyword) ∧
    c.kind (i + 1) = .dot ∧ c.kind (i + 2) = .newKeyword ∧ c.continuesAt (i + 2) = true

theorem calls_of_drop (h : c.ahead = b.ahead.drop j) (i : Nat) :
    c.Calls i ↔ b.Calls (j + i) := by
  rw [Calls, Calls, kind_of_drop h, kind_of_drop h, kind_of_drop h, continuesAt_of_drop h]
  rfl

/-- An initializer begins at the last lexeme of the line ahead. -/
def CallsBelow (c : Cursor) : Prop :=
  c.Calls (c.lineLength - 1)

end Cursor

namespace VisualBasic

open Cursor

variable {b c : Cursor} {i j : Nat}

theorem seesInitializer_iff {bs : List Block} :
    seesInitializer bs c = true ↔ inConstructor bs = true ∧ c.Calls 0 := by
  simp only [seesInitializer, sees, Calls, Bool.and_eq_true, Bool.or_eq_true, beq_iff_eq,
    Nat.zero_add, or_assoc, and_assoc, and_left_comm]

theorem moveToken_of_calls {bs : List Block} (hb : inConstructor bs = true) (h : c.Calls 0)
    (d p : Bool) : moveToken bs d p c = moveInitializer c := by
  have hi : ¬ c.sees .identifier = true := by
    rw [sees]
    rcases h.1 with hk | hk | hk <;> (rw [hk]; exact Bool.false_ne_true)
  rw [moveToken, if_neg hi, if_pos (seesInitializer_iff.2 ⟨hb, h⟩)]

/-! ## Attributes and modifiers -/

/-- All that begins a line is operators. -/
def OnlyOperators (ls : List Lexeme) : Prop :=
  ∀ l ∈ ls, l.startsLine = true → l.kind = .operator

theorem onlyOperators_attribute {ls : List Lexeme} {k : Nat} (h : attributeLength? ls = some k) :
    OnlyOperators (ls.take k) := by
  induction ls generalizing k with
  | nil => cases h
  | cons m ls ih =>
      rw [attributeLength?] at h
      split at h
      · split at h
        · next hm =>
            cases h
            intro l hl _
            rw [List.take_succ_cons, List.take_zero, List.mem_singleton] at hl
            rw [hl, hm]
        · cases h
      · next hm =>
          obtain ⟨j, hj, rfl⟩ := Option.map_eq_some_iff.1 h
          refine List.forall_mem_cons.2 ⟨fun hs => absurd ?_ hm, ih hj⟩
          rw [hs, Bool.true_or]

theorem onlyOperators_of_tail {ls : List Lexeme}
    (h : OnlyOperators (ls.take (headLength false ls)).tail) :
    OnlyOperators (ls.take (headLength false ls)) := by
  intro l hl hs
  cases ls with
  | nil =>
      rw [List.take_nil] at hl
      cases hl
  | cons m ls =>
      cases hn : headLength false (m :: ls) with
      | zero =>
          rw [hn] at hl
          cases hl
      | succ n =>
          rw [hn, List.take_succ_cons] at h hl
          rcases List.mem_cons.1 hl with rfl | hl
          · -- a first lexeme that begins a line would have ended the head
            rw [headLength, hs] at hn
            cases hn
          · exact h l hl hs

/-- A head goes on below a line only where an operator there ends an attribute. -/
theorem onlyOperators_headLength (first : Bool) (ls : List Lexeme) :
    OnlyOperators (ls.take (headLength first ls)).tail := by
  fun_induction headLength first ls with
  | case1 => exact fun l hl => absurd hl List.not_mem_nil
  | case2 => exact fun l hl => absurd hl List.not_mem_nil
  | case3 => exact fun l hl => absurd hl List.not_mem_nil
  | case4 first m ls _ _ k hk ih =>
      rw [Nat.add_assoc, Nat.add_comm 1, List.take_succ_cons, List.tail_cons, List.take_add]
      exact List.forall_mem_append.2 ⟨onlyOperators_attribute hk, onlyOperators_of_tail ih⟩
  | case5 first m ls _ _ _ ih =>
      rw [Nat.add_comm 1, List.take_succ_cons, List.tail_cons]
      exact onlyOperators_of_tail ih
  | case6 => exact fun l hl => absurd hl List.not_mem_nil

/-! ## The moves of a line -/

theorem within_moveReference (h : Inside b c) : Within b (moveReference c) :=
  h.tail (ahead_moveReference c)

theorem within_moveListItems {move : Cursor → Cursor}
    {ht : ∀ c, c.ahead ≠ [] → (move c).ahead.length < c.ahead.length} (h : Within b c)
    (hm : ∀ {c}, Inside b c → Within b (move c)) : Within b (moveListItems move ht c) := by
  refine repeatUntil_induct (P := fun s : Cursor × Nat => Within b s.1) (c, 0) h ?_
  intro s hs hw
  rw [Bool.or_eq_false_iff, Bool.not_eq_false'] at hs
  have hi := hw.inside hs.1
  split
  · exact hi.bump
  · exact hi.bump
  · exact hm hi

theorem within_closeList (h : Within b c) : Within b (closeList c) := by
  unfold closeList
  split
  · next hc => exact (h.inside hc).bump
  · exact h

theorem within_moveInitializer (ha : c.ahead = b.ahead.drop j) (hj : j + 3 ≤ b.lineLength) :
    Within b (moveInitializer c) := by
  unfold moveInitializer
  have h : Within b
      ((((c.openNode .constructorInitializer).bump.bump).bump).openNode .argumentList) := by
    refine ⟨j + 3, hj, ?_⟩
    simp only [ahead_openNode, ahead_bump, ha, List.tail_drop]
  simp only
  split
  · next hs =>
      have hi := h.inside (Bool.and_eq_true_iff.1 hs).2
      exact within_closeList (within_moveListItems hi.bump within_moveReference)
  · exact h

/-- A lexeme of the line is moved, and an initializer with it unless it goes on below the line. -/
theorem within_moveToken {bs : List Block} (hb : inConstructor bs = true → ¬ b.CallsBelow)
    (h : Inside b c) (d p : Bool) : Within b (moveToken bs d p c) := by
  unfold moveToken
  split
  · exact h.tail (ahead_moveName d p c)
  · split
    · next hs =>
        obtain ⟨j, hj, ha⟩ := h
        obtain ⟨hk, hcall⟩ := seesInitializer_iff.1 hs
        rw [calls_of_drop ha, Nat.add_zero] at hcall
        refine within_moveInitializer ha ?_
        have hlast : j ≠ b.lineLength - 1 := by
          rintro rfl
          exact hb hk hcall
        -- `New` goes on with the line of the dot, so the line does not end between them
        have hdot : j + 2 ≠ b.lineLength := ne_lineLength hcall.2.2.2
        omega
    · exact h.bump

theorem within_moveImports (h : c.ahead ≠ [])
    (hb : ¬ (c.lineLength = 2 ∧ c.kind 1 = .identifier ∧ c.kind 2 = .equals)) :
    Within c (moveImports c) := by
  unfold moveImports
  have hi : Inside c (c.openNode .usingDirective) := inside_of_ahead h rfl
  have h₁ : Within c (c.openNode .usingDirective).bump := hi.bump
  have ha₁ : (c.openNode .usingDirective).bump.ahead = c.ahead.drop 1 := by
    rw [ahead_bump, ahead_openNode, List.drop_one]
  generalize (c.openNode .usingDirective).bump = c₁ at h₁ ha₁ ⊢
  refine repeatUntil_induct (P := Within c) _ ?_ fun c' hc hw =>
    within_moveReference (hw.inside (by simpa using hc))
  split
  · exact h₁
  · next hc =>
      have hc₁ : c₁.continuesAt 0 = true := by simpa using hc
      have hi := h₁.inside hc₁
      split
      · next hs =>
          simp only [sees, Bool.and_eq_true, beq_iff_eq, kind_of_drop ha₁] at hs
          rw [continuesAt_of_drop ha₁] at hc₁
          -- the name is on the line, and nobody has asked whether the mark behind it is
          have h0 : 0 < c.lineLength := lineLength_pos h
          have h1 : 1 ≠ c.lineLength := ne_lineLength hc₁
          have h2 : 2 ≠ c.lineLength := fun hl => hb ⟨hl.symm, hs⟩
          have h3 : 3 ≤ c.lineLength := by omega
          refine ⟨3, h3, ?_⟩
          simp only [ahead_close, ahead_bump, ahead_openNode, ha₁, List.tail_drop]
      · split
        · exact hi.tail (ahead_bump _)
        · exact h₁

namespace State

variable {s : State}

theorem within_finishLine (hb : inConstructor s.blocks = true → ¬ b.CallsBelow)
    (h : Within b s.cursor) : Within b s.finishLine.cursor := by
  unfold finishLine
  simp only
  generalize hr : repeatUntil _ _ _ _ s.cursor = rest
  have h₁ : Within b rest := by
    refine hr ▸ repeatUntil_induct (P := Within b) s.cursor h fun c hc hw => ?_
    rw [Bool.or_eq_false_iff, Bool.not_eq_false'] at hc
    exact within_moveToken hb (hw.inside hc.1) _ _
  split
  · next hc => exact (h₁.inside hc).bump
  · exact h₁

theorem within_moveParameters (hb : inConstructor s.blocks = true → ¬ b.CallsBelow)
    (h : Within b s.cursor) : Within b s.moveParameters.cursor := by
  unfold moveParameters
  split
  · next hs =>
      have hi := h.inside (Bool.and_eq_true_iff.1 hs).2
      exact within_closeList (within_moveListItems (Inside.bump hi) fun hi =>
        within_moveToken hb hi _ _)
  · exact h

theorem blocks_moveParameters (s : State) : s.moveParameters.blocks = s.blocks := by
  unfold moveParameters
  split <;> rfl

/-! ## The head of a line -/

theorem ahead_moveTokens {n : Nat} (ha : s.cursor.ahead = b.ahead.drop j)
    (h : inConstructor s.blocks = true → ∀ i < n, ¬ b.Calls (j + i)) :
    (s.moveTokens n).cursor.ahead = b.ahead.drop (j + n) := by
  induction n generalizing s j with
  | zero => exact ha
  | succ n ih =>
      have hs : ¬ seesInitializer s.blocks s.cursor = true := by
        intro hs
        obtain ⟨hb, hc⟩ := seesInitializer_iff.1 hs
        rw [calls_of_drop ha] at hc
        exact h hb 0 (Nat.succ_pos n) hc
      have ha' : (s.moveToken false).cursor.ahead = b.ahead.drop (j + 1) := by
        rw [← List.tail_drop, ← ha]
        show (VisualBasic.moveToken _ _ _ _).ahead = _
        rw [VisualBasic.moveToken, if_neg hs]
        split
        · exact ahead_moveName _ _ _
        · exact ahead_bump _
      have hn : j + (n + 1) = j + 1 + n := by omega
      rw [hn]
      refine ih ha' fun hb i hi => ?_
      have hi' : j + 1 + i = j + (i + 1) := by omega
      rw [hi']
      exact h hb (i + 1) (Nat.succ_lt_succ hi)

/-- A head of `n` lexemes and the word behind it are on the line ahead, and no initializer begins
in the head or at the end of the line. -/
structure Fits (b : Cursor) (bs : List Block) (n : Nat) : Prop where
  lt : n < b.lineLength
  head : inConstructor bs = true → ∀ i < n, ¬ b.Calls i
  last : inConstructor bs = true → ¬ b.CallsBelow

namespace Fits

variable {n : Nat}

theorem last_moveTokens (h : Fits b s.blocks n) :
    inConstructor (s.moveTokens n).blocks = true → ¬ b.CallsBelow := by
  rw [blocks_moveTokens]
  exact h.last

theorem ahead_head (h : Fits b s.blocks n) (ha : s.cursor.ahead = b.ahead) :
    ((s.moveTokens n).move bump).cursor.ahead = b.ahead.drop (n + 1) := by
  have ht : (s.moveTokens n).cursor.ahead = b.ahead.drop (0 + n) := by
    refine ahead_moveTokens ha fun hb i hi => ?_
    rw [Nat.zero_add]
    exact h.head hb i hi
  rw [ahead_move, ahead_bump, ht, Nat.zero_add, List.tail_drop]

theorem within_head (h : Fits b s.blocks n) (ha : s.cursor.ahead = b.ahead) :
    Within b ((s.moveTokens n).move bump).cursor :=
  ⟨n + 1, h.lt, h.ahead_head ha⟩

theorem within_openBlock (h : Fits s.cursor s.blocks n) (k : NodeKind) (b : Block) :
    Within s.cursor (s.openBlock k n b).cursor :=
  within_finishLine (last_moveTokens (s := s.move (·.openNode k)) h)
    (within_head (s := s.move (·.openNode k)) h rfl)

theorem within_moveType (h : Fits s.cursor s.blocks n) :
    Within s.cursor (s.moveType n).cursor := by
  have h₁ := within_head (s := s.move (·.openNode .classDeclaration)) h rfl
  refine within_finishLine (last_moveTokens (s := s.move (·.openNode .classDeclaration)) h) ?_
  show Within s.cursor (if _ then _ else _)
  split
  · next hs => exact (h₁.inside (Bool.and_eq_true_iff.1 hs).2).bump
  · exact h₁

theorem within_moveSignature (h : Fits s.cursor s.blocks n) {b : Bool}
    (hb : b = true → n + 1 ≠ s.cursor.lineLength) :
    Within s.cursor (s.moveSignature b n).cursor := by
  have ha := ahead_head (s := s.move (·.openNode (methodKind b))) h rfl
  have h₁ := within_head (s := s.move (·.openNode (methodKind b))) h rfl
  have hl := last_moveTokens (s := s.move (·.openNode (methodKind b))) h
  refine within_finishLine ?_ (within_moveParameters hl ?_)
  · show inConstructor (moveParameters _).blocks = true → _
    rw [blocks_moveParameters]
    exact hl
  · show Within s.cursor (moveMethodName b _)
    unfold moveMethodName
    split
    · next hn =>
        -- `New` is moved wherever it stands
        refine ⟨n + 2, Nat.lt_of_le_of_ne h.lt (hb hn), ?_⟩
        rw [ahead_bump, ha, List.tail_drop]
    · split
      · next hs => exact (h₁.inside (Bool.and_eq_true_iff.1 hs).2).tail (ahead_wrap _ _)
      · exact h₁

theorem within_moveMethod (h : Fits s.cursor s.blocks n)
    (hs : s.cursor.kind n = .subKeyword → s.cursor.kind (n + 1) = .newKeyword →
      n + 1 ≠ s.cursor.lineLength) : Within s.cursor (s.moveMethod n).cursor := by
  unfold moveMethod
  simp only
  have h₁ := h.within_moveSignature
    (b := s.cursor.kind n == .subKeyword && s.cursor.kind (n + 1) == .newKeyword) fun hb => by
      rw [Bool.and_eq_true, beq_iff_eq, beq_iff_eq] at hb
      exact hs hb.1 hb.2
  split <;> exact h₁

theorem within_moveEnd {w : TokenKind} (h : Fits s.cursor (dropBlocks w s.cursor s.blocks).2 n)
    (hw : s.cursor.continuesAt (n + 1) = true) : Within s.cursor (s.moveEnd n w).cursor := by
  let s' : State := { s with
    cursor := (dropBlocks w s.cursor s.blocks).1, blocks := (dropBlocks w s.cursor s.blocks).2 }
  have hd : s'.cursor.ahead = s.cursor.ahead := ahead_dropBlocks w s.cursor s.blocks
  have ha := ahead_head (s := s') h hd
  refine within_finishLine (last_moveTokens (s := s') h) ?_
  refine ⟨n + 2, Nat.lt_of_le_of_ne h.lt (ne_lineLength hw), ?_⟩
  rw [ahead_move, ahead_bump, ha, List.tail_drop]

end Fits

theorem within_moveOther (h : s.cursor.ahead ≠ [])
    (hb : inConstructor s.blocks = true → ¬ s.cursor.CallsBelow) :
    Within s.cursor s.moveOther.cursor := by
  have hi : Inside s.cursor (s.cursor.openNode (lineKind s.blocks)) := inside_of_ahead h rfl
  have h₁ : Within s.cursor ((s.move (·.openNode (lineKind s.blocks))).moveToken false).cursor :=
    within_moveToken hb hi _ _
  unfold moveOther
  simp only
  split
  · exact h₁
  · exact within_finishLine hb h₁

/-! ## What may go on below a line -/

/-- The line is one whose attributes and modifiers are moved as its head: a declaration, or the end
of a block. -/
def takesHead (s : State) : Bool :=
  match (lineHead s.cursor).2 with
  | .namespaceKeyword | .typeKeyword | .subKeyword | .functionKeyword => true
  | .endKeyword =>
    (endWord? s.cursor (lineHead s.cursor).1).any fun w => s.blocks.any (closesWith w)
  | _ => false

/-- The line ends behind `Imports` and a name, and `=` stands below. -/
def AliasBelow (s : State) : Prop :=
  (lineHead s.cursor).2 = .importsKeyword ∧
    s.cursor.lineLength = 2 ∧ s.cursor.kind 1 = .identifier ∧ s.cursor.kind 2 = .equals

/-- The line ends with `Sub`, and `New` stands below. -/
def NewBelow (s : State) : Prop :=
  (lineHead s.cursor).2 = .subKeyword ∧ s.cursor.lineLength = (lineHead s.cursor).1 + 1 ∧
    s.cursor.kind s.cursor.lineLength = .newKeyword

/-- The line ends inside an attribute of its head, and an operator stands below. -/
def HeadBelow (s : State) : Prop :=
  s.takesHead = true ∧ s.cursor.lineLength < (lineHead s.cursor).1 ∧
    s.cursor.kind s.cursor.lineLength = .operator

/-- The blocks that are open while the line is moved. Those that it ends are not among them. -/
def openBlocks (s : State) : List Block :=
  match (lineHead s.cursor).2 with
  | .endKeyword =>
    match endWord? s.cursor (lineHead s.cursor).1 with
    | some w =>
      if s.blocks.any (closesWith w) then (dropBlocks w s.cursor s.blocks).2 else s.blocks
    | none => s.blocks
  | _ => s.blocks

/-- The line ends with `Me`, `MyBase` or `MyClass` in a constructor, and `.New` stands below. -/
def CallBelow (s : State) : Prop :=
  (lineHead s.cursor).2 ≠ .importsKeyword ∧ inConstructor s.openBlocks = true ∧
    s.cursor.CallsBelow

/-- An initializer begins among the attributes and modifiers, in a constructor. -/
def CallInHead (s : State) : Prop :=
  s.takesHead = true ∧ inConstructor s.openBlocks = true ∧
    ∃ i < (lineHead s.cursor).1, s.cursor.Calls i

/-! ## Lines -/

/-- The word behind a head is ahead, and goes on with the line. -/
theorem of_takesHead (h : s.takesHead = true) :
    let n := (lineHead s.cursor).1
    (lineHead s.cursor).2 = s.cursor.kind n ∧ n < s.cursor.ahead.length ∧
      (n = 0 ∨ s.cursor.continuesAt n = true) := by
  intro n
  have hk : (lineHead s.cursor).2 ≠ .badToken ∧ (lineHead s.cursor).2 ≠ .endOfFile := by
    rw [takesHead] at h
    constructor <;> (intro hk; rw [hk] at h; cases h)
  have hn : (lineHead s.cursor).2 =
      if n > 0 && !s.cursor.continuesAt n then .badToken else s.cursor.kind n := rfl
  rw [hn] at hk ⊢
  split at hk
  · exact absurd rfl hk.1
  · next hc =>
      rw [if_neg hc]
      refine ⟨rfl, length_pos_of_kind_ne hk.2, ?_⟩
      rcases Nat.eq_zero_or_pos n with h0 | h0
      · exact .inl h0
      · exact .inr (by simpa [h0] using hc)

theorem headBelow_of_lt (h : s.takesHead = true)
    (hl : s.cursor.lineLength < (lineHead s.cursor).1) : s.HeadBelow := by
  refine ⟨h, hl, ?_⟩
  obtain ⟨-, hlt, -⟩ := of_takesHead h
  have hm := Nat.lt_trans hl hlt
  have h0 := lineLength_pos (List.ne_nil_of_length_pos (Nat.zero_lt_of_lt hlt))
  have hmem : s.cursor.ahead[s.cursor.lineLength] ∈
      (s.cursor.ahead.take (lineHead s.cursor).1).tail := by
    refine List.mem_of_getElem? (i := s.cursor.lineLength - 1) ?_
    rw [List.getElem?_tail, Nat.sub_add_cancel h0, List.getElem?_take_of_lt hl,
      List.getElem?_eq_getElem hm]
  have hk := onlyOperators_headLength true s.cursor.ahead _ hmem (startsLine_lineLength hm)
  rwa [kind, List.getElem?_eq_getElem hm]

/-- In one of five ways the line may go on below itself. -/
def MayOverrun (s : State) : Prop :=
  s.AliasBelow ∨ s.NewBelow ∨ s.HeadBelow ∨ s.CallBelow ∨ s.CallInHead

theorem fits_of_takesHead (h : s.takesHead = true) (hg : ¬ s.MayOverrun) :
    Fits s.cursor s.openBlocks (lineHead s.cursor).1 := by
  simp only [MayOverrun, not_or] at hg
  obtain ⟨-, -, hhead, hbelow, hcall⟩ := hg
  have hk : (lineHead s.cursor).2 ≠ .importsKeyword := by
    intro hk
    rw [takesHead, hk] at h
    cases h
  refine ⟨?_, fun hb i hi hc => hcall ⟨h, hb, i, hi, hc⟩, fun hb hc => hbelow ⟨hk, hb, hc⟩⟩
  have hle : (lineHead s.cursor).1 ≤ s.cursor.lineLength :=
    Nat.le_of_not_lt fun hl => hhead (headBelow_of_lt h hl)
  obtain ⟨-, hlt, hn | hn⟩ := of_takesHead h
  · rw [hn]
    exact lineLength_pos (List.ne_nil_of_length_pos (Nat.zero_lt_of_lt hlt))
  · exact Nat.lt_of_le_of_ne hle (ne_lineLength hn)

theorem continuesAt_of_endWord? {n : Nat} {w : TokenKind} (h : endWord? c n = some w) :
    c.continuesAt (n + 1) = true := by
  unfold endWord? at h
  split at h
  · assumption
  · cases h

theorem within_moveLine (he : s.cursor.ahead ≠ []) (hg : ¬ s.MayOverrun) :
    Within s.cursor s.moveLine.cursor := by
  unfold moveLine
  obtain ⟨n, k, hn⟩ : ∃ n k, lineHead s.cursor = (n, k) := ⟨_, _, rfl⟩
  have hfits {bs : List Block} (ht : s.takesHead = true) (hb : s.openBlocks = bs) :
      Fits s.cursor bs n := by
    have h := fits_of_takesHead ht hg
    rwa [hn, hb] at h
  have hother (hk : k ≠ .importsKeyword) (hb : s.openBlocks = s.blocks) (d : Bool) :
      Within s.cursor (moveOther { s with declares := d }).cursor := by
    refine within_moveOther (s := { s with declares := d }) he fun hc hcall => ?_
    exact hg (.inr (.inr (.inr (.inl ⟨by rwa [hn], hb ▸ hc, hcall⟩))))
  simp only [hn]
  generalize (k == TokenKind.dimKeyword || (n > 0 && k == TokenKind.identifier)) = d
  split
  · exact within_moveImports he fun h => hg (.inl ⟨by rw [hn], h⟩)
  · have hf := hfits (by rw [takesHead, hn]) (by rw [openBlocks, hn])
    exact Fits.within_openBlock (s := { s with declares := d }) hf _ _
  · have hf := hfits (by rw [takesHead, hn]) (by rw [openBlocks, hn])
    exact Fits.within_moveType (s := { s with declares := d }) hf
  · have hf := hfits (by rw [takesHead, hn]) (by rw [openBlocks, hn])
    refine Fits.within_moveMethod (s := { s with declares := d }) hf fun _ hnew hl => ?_
    exact hg (.inr (.inl ⟨by rw [hn], by rw [hn, hl], hl ▸ hnew⟩))
  · -- behind `Function` no constructor is looked for
    have ht : s.takesHead = true := by rw [takesHead, hn]
    have hf := hfits ht (by rw [openBlocks, hn])
    refine Fits.within_moveMethod (s := { s with declares := d }) hf fun hsub => ?_
    have hk := (of_takesHead ht).1
    rw [hn] at hk
    cases hk.trans hsub
  · split
    · next w hw =>
        split
        · next hany =>
            have ht : s.takesHead = true := by
              simp only [takesHead, hn]
              exact (Option.any_eq_true _ _).2 ⟨w, hw, hany⟩
            have hb : s.openBlocks = (dropBlocks w s.cursor s.blocks).2 := by
              simp only [openBlocks, hn, hw, if_pos hany]
            exact Fits.within_moveEnd (s := { s with declares := d }) (hfits ht hb)
              (continuesAt_of_endWord? hw)
        · next hany =>
            exact hother (by decide) (by simp only [openBlocks, hn, hw, if_neg hany]) d
    · next hw => exact hother (by decide) (by simp only [openBlocks, hn, hw]) d
  · next h _ _ _ _ _ => exact hother h (by simp only [openBlocks, hn]) d

/-! ## Where a line goes on -/

/-- More lexemes are moved than are on the line ahead. -/
def Overruns (s : State) : Prop :=
  s.cursor.lineLength < s.cursor.ahead.length - s.moveLine.cursor.ahead.length

theorem Overruns.mayOverrun (h : s.Overruns) : s.MayOverrun := by
  have he : s.cursor.ahead ≠ [] := by
    intro he
    rw [Overruns, he] at h
    exact absurd h (by simp)
  by_cases hg : s.MayOverrun
  · exact hg
  · obtain ⟨j, hj, ha⟩ := within_moveLine he hg
    rw [Overruns, ha, List.length_drop] at h
    omega

theorem length_moveLine_of_takesHead (h : s.takesHead = true) :
    s.moveLine.cursor.ahead.length ≤ s.cursor.ahead.length - ((lineHead s.cursor).1 + 1) := by
  obtain ⟨n, k, hn⟩ : ∃ n k, lineHead s.cursor = (n, k) := ⟨_, _, rfl⟩
  unfold moveLine
  rw [takesHead] at h
  simp only [hn] at h ⊢
  generalize (k == TokenKind.dimKeyword || (n > 0 && k == TokenKind.identifier)) = d
  split at h
  · exact length_openBlock_le { s with declares := d } _ n _
  · exact length_moveType_le { s with declares := d } n
  · exact length_moveMethod_le { s with declares := d } n
  · exact length_moveMethod_le { s with declares := d } n
  · obtain ⟨w, hw, hany⟩ := (Option.any_eq_true _ _).1 h
    simp only [hw, hany, if_true]
    exact length_moveEnd_le { s with declares := d } n w
  · cases h

theorem HeadBelow.overruns (h : s.HeadBelow) : s.Overruns := by
  have hm := length_moveLine_of_takesHead h.1
  have hn := (of_takesHead h.1).2.1
  have hl := h.2.1
  rw [Overruns]
  omega

theorem length_moveSignature_true (s : State) (n : Nat) :
    (s.moveSignature true n).cursor.ahead.length ≤ s.cursor.ahead.length - (n + 2) := by
  refine Nat.le_trans (length_finishLine_le _) (Nat.le_trans (length_moveParameters_le _) ?_)
  have hh := length_head_le s (methodKind true) n
  show (bump _).ahead.length ≤ _
  rw [ahead_bump, List.length_tail]
  omega

theorem NewBelow.overruns (h : s.NewBelow) : s.Overruns := by
  obtain ⟨hk, hl, hnew⟩ := h
  obtain ⟨n, k, hn⟩ : ∃ n k, lineHead s.cursor = (n, k) := ⟨_, _, rfl⟩
  have ht : s.takesHead = true := by rw [takesHead, hk]
  have hsub := (of_takesHead ht).1
  have hlt := length_pos_of_kind_ne (c := s.cursor) (by rw [hnew]; decide)
  rw [hn] at hk hl hsub
  obtain rfl : k = .subKeyword := hk
  rw [hl] at hnew
  have hle : s.moveLine.cursor.ahead.length ≤ s.cursor.ahead.length - (n + 2) := by
    unfold moveLine
    simp only [hn]
    generalize (_ || _) = d
    have hm := length_moveSignature_true { s with declares := d } n
    unfold moveMethod
    simp only [← hsub, hnew, beq_self_eq_true, Bool.and_self]
    split <;> exact hm
  rw [Overruns]
  omega

theorem AliasBelow.overruns (h : s.AliasBelow) : s.Overruns := by
  obtain ⟨hk, hl, hname, heq⟩ := h
  have hlt := length_pos_of_kind_ne (c := s.cursor) (n := 2) (by rw [heq]; decide)
  have hle : s.moveLine.cursor.ahead.length ≤ s.cursor.ahead.length - 3 := by
    unfold moveLine
    simp only [hk]
    show (moveImports s.cursor).ahead.length ≤ _
    have ha : (s.cursor.openNode .usingDirective).bump.ahead = s.cursor.ahead.drop 1 := by
      rw [ahead_bump, ahead_openNode, List.drop_one]
    have hc : (s.cursor.openNode .usingDirective).bump.continuesAt 0 = true := by
      rw [continuesAt_of_drop ha]
      exact continuesAt_of_lt (by omega)
    unfold moveImports
    simp only [ahead_close]
    refine Nat.le_trans (size_repeatUntil_le (m := fun c : Cursor => c.ahead.length) _) ?_
    simp only [hc, sees, kind_of_drop ha, Nat.add_zero, hname, Nat.reduceAdd, heq]
    simp
    omega
  rw [Overruns]
  omega

/-- The line is `Me`, `MyBase` or `MyClass` alone, in a constructor, and `.New` stands below. -/
def LoneCallBelow (s : State) : Prop :=
  inConstructor s.blocks = true ∧ s.cursor.lineLength = 1 ∧ s.cursor.Calls 0

theorem lineHead_of_calls (h : c.Calls 0) : lineHead c = (0, c.kind 0) := by
  have hk : c.kind 0 ≠ .endOfFile := by
    rcases h.1 with h | h | h <;> (rw [h]; decide)
  obtain ⟨l, rest, ha, hl⟩ := exists_ahead hk
  have hn : headLength true c.ahead = 0 := by
    rw [ha, headLength]
    rcases h.1 with h | h | h <;> simp [isOperator, isModifier, hl, h]
  simp only [lineHead, hn]
  rfl

theorem length_moveOther_of_calls (hb : inConstructor s.blocks = true) (h : s.cursor.Calls 0) :
    s.moveOther.cursor.ahead.length ≤ s.cursor.ahead.length - 3 := by
  have h₁ : ((s.move (·.openNode (lineKind s.blocks))).moveToken false).cursor.ahead.length ≤
      s.cursor.ahead.length - 3 := by
    show (VisualBasic.moveToken s.blocks _ _ (s.cursor.openNode _)).ahead.length ≤ _
    rw [moveToken_of_calls (c := s.cursor.openNode _) hb h]
    exact length_moveInitializer_le _
  unfold moveOther
  simp only
  split
  · exact h₁
  · exact Nat.le_trans (length_finishLine_le _) h₁

theorem LoneCallBelow.overruns (h : s.LoneCallBelow) : s.Overruns := by
  obtain ⟨hb, hl, hc⟩ := h
  have hlt := length_pos_of_continuesAt hc.2.2.2
  have hle : s.moveLine.cursor.ahead.length ≤ s.cursor.ahead.length - 3 := by
    unfold moveLine
    simp only [lineHead_of_calls hc]
    generalize (_ || _) = d
    have ho := length_moveOther_of_calls (s := { s with declares := d }) hb hc
    rcases hc.1 with hk | hk | hk <;> (rw [hk]; exact ho)
  rw [Overruns]
  omega

end State

/-- Where the parser of a text begins a line, or ends. -/
inductive Reached (t : Text) : State → Prop
  | start : Reached t ⟨.ofLexemes (LexemeSeq.ofText .visualBasic t).lexemes, [], false⟩
  | step {s : State} (h : Reached t s) (he : s.cursor.atEnd = false) : Reached t s.moveLine

namespace Reached

variable {t : Text} {s : State}

theorem grown (h : Reached t s) :
    State.Grown (.ofLexemes (LexemeSeq.ofText .visualBasic t).lexemes) [] s := by
  induction h with
  | start => exact Grown.refl _
  | step _ _ ih => exact ih.moveLine

/-- A line moves the first of the lexemes ahead, and goes beyond itself exactly if another of those
it moves begins a line. -/
theorem exists_moved (h : Reached t s) (he : s.cursor.atEnd = false) :
    ∃ moved, s.cursor.ahead = moved ++ s.moveLine.cursor.ahead ∧ moved ≠ [] ∧
      ((∃ l ∈ moved.tail, l.startsLine = true) ↔ s.Overruns) := by
  obtain ⟨ws, o, -, -, hl, -⟩ := h.grown
  obtain ⟨ws', o', -, -, hl', -⟩ := (h.step he).grown
  have hlt := State.length_moveLine_lt s he
  obtain ⟨moved, hm⟩ := List.suffix_of_suffix_length_le ⟨_, hl'⟩ ⟨_, hl⟩ (Nat.le_of_lt hlt)
  refine ⟨moved, hm.symm, ?_, ?_⟩
  · rintro rfl
    rw [← hm] at hlt
    exact Nat.lt_irrefl _ hlt
  · have hlen := congrArg List.length hm
    rw [List.length_append] at hlen
    rw [exists_startsLine_iff hm.symm, State.Overruns]
    exact iff_of_eq (congrArg _ (by omega))

end Reached

/-- Only the first of the lexemes that a line moves begins a logical line, but for five ways to go
on below it. In the first three of them a line always goes on, and in the fourth if the word is all
of the line. -/
theorem one_line_moved {t : Text} {s : State} (h : Reached t s) (he : s.cursor.atEnd = false) :
    ∃ moved, s.cursor.ahead = moved ++ s.moveLine.cursor.ahead ∧ moved ≠ [] ∧
      ((∃ l ∈ moved.tail, l.startsLine = true) →
        s.AliasBelow ∨ s.NewBelow ∨ s.HeadBelow ∨ s.CallBelow ∨ s.CallInHead) ∧
      (s.AliasBelow ∨ s.NewBelow ∨ s.HeadBelow ∨ s.LoneCallBelow →
        ∃ l ∈ moved.tail, l.startsLine = true) := by
  obtain ⟨moved, hm, hne, hiff⟩ := h.exists_moved he
  refine ⟨moved, hm, hne, fun hs => (hiff.1 hs).mayOverrun, fun hb => hiff.2 ?_⟩
  rcases hb with hb | hb | hb | hb
  · exact hb.overruns
  · exact hb.overruns
  · exact hb.overruns
  · exact hb.overruns

/-- The attribute is open at the end of its line, and the line below ends it. -/
theorem one_line_moved_open_attribute :
    let t := "Imports A\n<B\n> Class C\nEnd Class\n".toList
    let s := State.moveLine ⟨.ofLexemes (LexemeSeq.ofText .visualBasic t).lexemes, [], false⟩
    Reached t s ∧ s.cursor.atEnd = false ∧ s.HeadBelow ∧
      ∃ moved, s.cursor.ahead = moved ++ s.moveLine.cursor.ahead ∧
        ∃ l ∈ moved.tail, l.startsLine = true := by
  intro t s
  have hr : Reached t s := .step .start (by decide +kernel)
  have he : s.cursor.atEnd = false := by decide +kernel
  have hb : s.HeadBelow := ⟨by decide +kernel, by decide +kernel, by decide +kernel⟩
  obtain ⟨moved, hm, -, -, hs⟩ := one_line_moved hr he
  exact ⟨hr, he, hb, moved, hm, hs (.inr (.inr (.inl hb)))⟩

end VisualBasic

end Xref
