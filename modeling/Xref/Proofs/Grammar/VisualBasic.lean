import Xref.Grammar.VisualBasic
import Xref.Proofs.Grammar.Imports

/-!
# What the parser of Visual Basic describes

Between two lines the nodes that are open are those of the blocks that are open, block for block.
Inside a line there are a few more, which `State.Grown c₀ ns` keeps. An initializer is only looked
for when the innermost block is a constructor, and then the node of a constructor is among those
that are open (`inConstructor_opened`).

A constructor begins with attributes and modifiers, `Sub` and `New` (`promise`). Which token at the
top is the first `New` can be told as long as no initializer is read among the attributes: as many
lexemes are moved as were counted, one by one (`describes_exactly`).
-/

namespace Xref.VisualBasic

/-! ## What constructors begin with -/

/-- Where the first `New` of a head stands: at the top, behind none other, unless it is behind a
dot. -/
def FirstNew (head : List Lexeme) (o : Outline) : Prop :=
  ∃ u m w, head = u ++ m :: w ∧ m.kind = .newKeyword ∧ (∀ l ∈ u, l.kind ≠ .newKeyword) ∧
    ((∀ d, u.getLast? = some d → d.kind ≠ .dot) →
      ∃ a r, o = a ++ .token m r ∧ a.lexemes = u ∧ a.Lacks .newKeyword)

/-- Attributes and modifiers come first, then `Sub` and `New`. -/
def BeginsConstructor (o : Outline) : Prop :=
  ∃ before sub new rest, o.lexemes = before ++ sub :: new :: rest ∧
    headLength true o.lexemes = before.length ∧ sub.kind = .subKeyword ∧
      new.kind = .newKeyword ∧ FirstNew (before ++ [sub, new]) o

/-- Words before a name that they declare. -/
def declaringWords : List String :=
  ["each", "for", "byval", "byref", "optional", "paramarray"]

/-- A name between the two is declared in a list of parameters: before `As` on its line, behind
`Dim`, or behind one of the words. -/
def DeclaresBetween (b a : Lexeme) : Prop :=
  (a.kind = .asKeyword ∧ a.startsLine = false) ∨ b.kind = .dimKeyword ∨
    (b.kind = .keyword ∧ ∃ word ∈ declaringWords, isWord b.value word = true)

/-- What stands before the alias of an import is one lexeme. -/
def BeginsImport (o : Outline) : Prop :=
  ∃ l, o = .token l .nil

/-- What imports and constructors begin with, and what lists of parameters declare; of types
nothing is promised. -/
def promise : Promise := fun _ n o =>
  match n.kind with
  | .usingDirective => o.IsImport BeginsImport
  | .constructorDeclaration => BeginsConstructor o
  | .parameterList => o.IsList DeclaresBetween
  | _ => True

theorem attributeLength?_append {k : Nat} {xs ys ys' : List Lexeme}
    (h : attributeLength? (xs ++ ys) = some k) (hk : k ≤ xs.length) :
    attributeLength? (xs ++ ys') = some k := by
  induction xs generalizing k with
  | nil =>
      obtain rfl := Nat.le_zero.1 hk
      cases ys with
      | nil => cases h
      | cons y ys =>
          rw [List.nil_append, attributeLength?] at h
          split at h
          · split at h <;> cases h
          · obtain ⟨_, -, h⟩ := Option.map_eq_some_iff.1 h
            cases h
  | cons x xs ih =>
      rw [List.cons_append, attributeLength?] at h ⊢
      split at h
      · next hx => rw [if_pos hx]; exact h
      · next hx =>
          obtain ⟨j, hj, rfl⟩ := Option.map_eq_some_iff.1 h
          rw [if_neg hx, ih hj (Nat.le_of_succ_le_succ hk)]
          rfl

/-- Attributes and modifiers end at `Sub`, whatever stands behind it. -/
theorem headLength_sub {sub : Lexeme} (hs : sub.kind = .subKeyword) {r r' : List Lexeme}
    {b : Bool} {pre : List Lexeme} (h : headLength b (pre ++ sub :: r) = pre.length) :
    headLength b (pre ++ sub :: r') = pre.length := by
  cases pre with
  | nil =>
      have ho : isOperator sub '<' = false := by
        rw [isOperator, hs]
        rfl
      have hm : isModifier sub = false := by
        rw [isModifier, hs]
        rfl
      rw [List.nil_append, headLength, ho, hm]
      split <;> rfl
  | cons l pre =>
      rw [List.cons_append, headLength] at h ⊢
      split at h
      · cases h
      · next hl =>
          rw [if_neg hl]
          split at h
          · next hl =>
              rw [if_pos hl]
              split at h
              · cases h
              · next k hk =>
                  rw [List.length_cons] at h ⊢
                  have hle : k ≤ pre.length := by omega
                  rw [List.drop_append_of_le_length hle] at h
                  have hk' : headLength false (pre.drop k ++ sub :: r) = (pre.drop k).length := by
                    rw [List.length_drop]
                    omega
                  have ih : headLength false (pre.drop k ++ sub :: r') = (pre.drop k).length :=
                    headLength_sub hs hk'
                  rw [attributeLength?_append hk hle]
                  dsimp only
                  rw [List.drop_append_of_le_length hle, ih, List.length_drop]
                  omega
          · next hl =>
              rw [if_neg hl]
              split at h
              · next hm =>
                  rw [List.length_cons, Nat.add_comm] at h ⊢
                  rw [if_pos hm, headLength_sub hs (Nat.succ_inj.1 h), Nat.add_comm]
              · cases h
termination_by pre.length
decreasing_by all_goals
  subst_vars
  simp only [List.length_drop, List.length_cons]
  omega

theorem FirstNew.append {head : List Lexeme} {o : Outline} (h : FirstNew head o) (p : Outline) :
    FirstNew head (o ++ p) := by
  obtain ⟨u, m, w, he, hm, hu, hd⟩ := h
  refine ⟨u, m, w, he, hm, hu, fun hl => ?_⟩
  obtain ⟨a, r, rfl, ha⟩ := hd hl
  exact ⟨a, r ++ p, Outline.append_assoc _ _ _, ha⟩

theorem BeginsConstructor.append {o : Outline} (h : BeginsConstructor o) (p : Outline) :
    BeginsConstructor (o ++ p) := by
  obtain ⟨before, sub, new, rest, hl, hk, hs, hn, hf⟩ := h
  have hl' : (o ++ p).lexemes = before ++ sub :: new :: (rest ++ p.lexemes) := by
    rw [Outline.lexemes_append, hl, List.append_assoc]
    rfl
  refine ⟨before, sub, new, rest ++ p.lexemes, hl', ?_, hs, hn, hf.append p⟩
  rw [hl] at hk
  rw [hl']
  exact headLength_sub hs hk

theorem holds_type {x : List Opened} (o : Outline) :
    Holds promise x ⟨.classDeclaration, none⟩ o :=
  .promised rfl trivial

variable {c₀ c : Cursor} {x ns : List Opened}

/-- The node that a block is. -/
def Block.opened : Block → Opened
  | .namespace => ⟨.namespaceDeclaration, none⟩
  | .type _ => ⟨.classDeclaration, none⟩
  | .constructor => ⟨.constructorDeclaration, none⟩
  | .sub | .function => ⟨.methodDeclaration, none⟩

theorem inConstructor_opened {bs : List Block} (h : inConstructor bs = true)
    (ns x : List Opened) : Opened.inConstructor (ns ++ bs.map Block.opened ++ x) = true := by
  unfold inConstructor at h
  split at h
  · rw [Opened.inConstructor, List.any_append, List.any_append]
    exact Bool.or_eq_true_iff.2 (.inl (Bool.or_eq_true_iff.2 (.inr rfl)))
  · cases h

/-! ## Names and lists -/

theorem grown_moveReference (h : Grown promise x c₀ ns c) :
    Grown promise x c₀ ns (moveReference c) := by
  unfold moveReference
  split
  · next hs => exact h.wrap hs (.inl rfl)
  · exact h.bump

theorem grown_moveListItems {move : Cursor → Cursor}
    {ht : ∀ c, c.ahead ≠ [] → (move c).ahead.length < c.ahead.length}
    (h : Grown promise x c₀ ns c)
    (hm : ∀ {c}, Grown promise x c₀ ns c → Grown promise x c₀ ns (move c)) :
    Grown promise x c₀ ns (moveListItems move ht c) := by
  refine repeatUntil_induct (P := fun s : Cursor × Nat => Grown promise x c₀ ns s.1) (c, 0) h ?_
  intro s _ hs
  split
  · exact hs.bump
  · exact hs.bump
  · exact hm hs

theorem grown_closeList (h : Grown promise x c₀ ns c) : Grown promise x c₀ ns (closeList c) := by
  unfold closeList
  split
  · exact h.bump
  · exact h.missing nofun

/-- An initializer is moved as a whole if its first three lexemes are ahead. -/
theorem describes_moveInitializer {q d n : Lexeme} {rest : List Lexeme} (x : List Opened)
    (hk : Opened.inConstructor x = true) (ha : c.ahead = q :: d :: n :: rest)
    (hq : q.kind = .meKeyword ∨ q.kind = .myClassKeyword ∨ q.kind = .myBaseKeyword) :
    ∃ o : Outline, Describes c (.node .constructorInitializer o .nil) (moveInitializer c) ∧
      (Outline.node .constructorInitializer o .nil).Formed promise x := by
  unfold moveInitializer
  have h₁ : Describes (c.openNode .constructorInitializer) (.token q .nil) _ := .token ha
  generalize (c.openNode .constructorInitializer).bump = c₁ at h₁ ⊢
  have ha₁ : c₁.ahead = d :: n :: rest := (List.cons.inj (h₁.ahead.trans ha)).2
  have h₂ : Describes c₁ (.token d .nil) _ := .token ha₁
  generalize c₁.bump = c₂ at h₂ ⊢
  have ha₂ : c₂.ahead = n :: rest := (List.cons.inj (h₂.ahead.trans ha₁)).2
  have h₃ : Describes c₂ (.token n .nil) _ := .token ha₂
  generalize c₂.bump = c₃ at h₃ ⊢
  have h₀ : Grown promise (⟨.argumentList, none⟩ :: ⟨.constructorInitializer, none⟩ :: x)
      _ [] (c₃.openNode .argumentList) := .refl _
  have close {c₄ : Cursor} (hg : Grown promise
      (⟨.argumentList, none⟩ :: ⟨.constructorInitializer, none⟩ :: x)
      (c₃.openNode .argumentList) [] c₄) :
      ∃ o : Outline, Describes c (.node .constructorInitializer o .nil) c₄.close.close ∧
        (Outline.node .constructorInitializer o .nil).Formed promise x := by
    obtain ⟨a, ha, hf⟩ := hg.outline
    have hd := ((h₁.trans h₂).trans h₃).trans ha.node
    exact ⟨_, hd.node, Outline.formed_node (n := ⟨.constructorInitializer, none⟩)
      ⟨.ofDot q d n a hq, fun _ => hk, nofun⟩
      (Outline.formed_node (n := ⟨.argumentList, none⟩) (.plain rfl a) hf)⟩
  simp only
  split
  · exact close (grown_closeList (grown_moveListItems h₀.bump grown_moveReference))
  · have h₁ := h₀.missing (k := .openParen) (by decide)
    exact close (h₁.missing (k := .closeParen) (by decide))

/-- Where an initializer is seen, three lexemes are ahead, and the first tells what is called. -/
theorem ahead_of_seesInitializer {bs : List Block} (h : seesInitializer bs c = true) :
    inConstructor bs = true ∧ ∃ q d n rest, c.ahead = q :: d :: n :: rest ∧
      (q.kind = .meKeyword ∨ q.kind = .myClassKeyword ∨ q.kind = .myBaseKeyword) := by
  simp only [seesInitializer, Cursor.sees, Bool.and_eq_true, Bool.or_eq_true, beq_iff_eq] at h
  obtain ⟨⟨⟨⟨hq, hb⟩, -⟩, -⟩, hn⟩ := h
  refine ⟨hb, ?_⟩
  have hl := Cursor.length_pos_of_continuesAt hn
  unfold Cursor.kind at hq
  cases ha : c.ahead with
  | nil => simp [ha] at hl
  | cons q r =>
      cases r with
      | nil => simp [ha] at hl
      | cons d r =>
          cases r with
          | nil => simp [ha] at hl
          | cons n rest =>
              rw [ha] at hq
              refine ⟨q, d, n, rest, rfl, ?_⟩
              rcases hq with (hq | hq) | hq
              · exact .inl hq
              · exact .inr (.inr hq)
              · exact .inr (.inl hq)

theorem grown_moveName (h : Grown promise x c₀ ns c) (hs : c.sees .identifier = true)
    (d p : Bool) : Grown promise x c₀ ns (moveName d p c) := by
  unfold moveName
  split
  · exact h.wrap hs (.inr rfl)
  · exact h.wrap hs (.inl rfl)

theorem grown_moveToken {bs : List Block} (h : Grown promise x c₀ ns c)
    (hb : inConstructor bs = true → Opened.inConstructor (ns ++ x) = true) (d p : Bool) :
    Grown promise x c₀ ns (moveToken bs d p c) := by
  unfold moveToken
  split
  · next hs => exact grown_moveName h hs d p
  · split
    · next hs =>
        obtain ⟨hc, q, d, n, rest, ha, hq⟩ := ahead_of_seesInitializer hs
        obtain ⟨o, hd, hf⟩ := describes_moveInitializer (ns ++ x) (hb hc) ha hq
        exact h.add hd hf
    · exact h.bump

/-- Whether a parameter is declared depends on the lexemes on its two sides. -/
theorem declaresName_iff {b l a : Lexeme} {rest : List Lexeme} (hb : c.previous = some b)
    (ha : c.ahead = l :: a :: rest) :
    declaresName false true c = true ↔ DeclaresBetween b a := by
  have hk : c.kind 1 = a.kind := by rw [Cursor.kind, ha]; rfl
  have hc : c.continuesAt 1 = !a.startsLine := by rw [Cursor.continuesAt, ha]; rfl
  unfold declaresName DeclaresBetween declaringWords
  rw [hb, hk, hc, Bool.or_eq_true]
  dsimp only
  refine or_congr (by simp) ?_
  generalize b.kind = k
  cases k <;> simp [or_assoc]

/-- In a list of parameters a name is declared where its neighbours fit. -/
theorem reads_moveToken {bs : List Block} (c : Cursor) (x : List Opened)
    (hb : inConstructor bs = true → Opened.inConstructor x = true) :
    Reads DeclaresBetween promise x c (moveToken bs false true c) := by
  unfold moveToken
  split
  · next hs => exact .name hs fun _ _ _ _ hb ha => declaresName_iff hb ha
  · split
    · next hs =>
        obtain ⟨hc, q, d, n, rest, ha, hq⟩ := ahead_of_seesInitializer hs
        obtain ⟨o, hd, hf⟩ := describes_moveInitializer x (hb hc) ha hq
        exact .node hd hf rfl
    · exact .bump c

theorem reads_closeList (c : Cursor) (x : List Opened) :
    Reads DeclaresBetween promise x c (closeList c) := by
  unfold closeList
  split
  · exact .bump c
  · exact .missing c nofun

/-- The parameters of a method are a node of its own. -/
theorem describes_parameters {bs : List Block} {d : Bool} (x : List Opened)
    (hb : inConstructor bs = true → Opened.inConstructor x = true)
    (ht : ∀ c, c.ahead ≠ [] → (moveToken bs d true c).ahead.length < c.ahead.length)
    (hd : d = false) (hs : c.sees .openParen = true) :
    ∃ a : Outline, Describes c (.node .parameterList a .nil)
        (closeList (moveListItems (moveToken bs d true) ht
          (c.openNode .parameterList).bump)).close ∧
      (Outline.node .parameterList a .nil).Formed promise x := by
  subst hd
  have hb' (h : inConstructor bs = true) :
      Opened.inConstructor (⟨.parameterList, none⟩ :: x) = true := by
    rw [Opened.inConstructor, List.any_cons]
    exact Bool.or_eq_true_iff.2 (.inr (hb h))
  have hi : Reads DeclaresBetween promise (⟨.parameterList, none⟩ :: x)
      (c.openNode .parameterList).bump
      (moveListItems (moveToken bs false true) ht (c.openNode .parameterList).bump) := by
    refine repeatUntil_induct (P := fun s : Cursor × Nat =>
      Reads DeclaresBetween promise _ (c.openNode .parameterList).bump s.1) (_, 0) (.refl _) ?_
    intro s _ hs
    split
    · exact hs.trans (.bump s.1)
    · exact hs.trans (.bump s.1)
    · exact hs.trans (reads_moveToken s.1 _ hb')
  obtain ⟨l, rest, ha, hl⟩ := Cursor.ahead_of_sees hs (by decide)
  obtain ⟨a, hd, hf, hi⟩ := (hi.trans (reads_closeList _ _)).isList ha hl
  exact ⟨a, hd.node, Outline.formed_node (n := ⟨.parameterList, none⟩) (.promised rfl hi) hf⟩

theorem cites_line {stop : Cursor → Bool}
    {lt : ∀ c, stop c = false → (moveReference c).ahead.length < c.ahead.length} (c : Cursor) :
    Cites promise x c (repeatUntil (fun c => c.ahead.length) stop moveReference lt c) :=
  repeatUntil_induct (P := Cites promise x c) c (.refl c) fun c' _ h => h.trans (.reference c')

/-- An import is added as a whole. -/
theorem grown_moveImports (h : Grown promise x c₀ ns c) (hne : c.ahead ≠ []) :
    Grown promise x c₀ ns (moveImports c) := by
  obtain ⟨l, rest, ha⟩ := List.exists_cons_of_ne_nil hne
  have hb : Describes (c.openNode .usingDirective) (.token l .nil) _ := .token ha
  unfold moveImports
  generalize (c.openNode .usingDirective).bump = c₁ at hb ⊢
  obtain ⟨label, hl, hlf, hlabel⟩ : ∃ label : Outline, Describes c₁ label
      (if !c₁.continuesAt 0 then c₁
        else if c₁.sees .identifier && c₁.kind 1 == .equals then
          (((c₁.openNode .nameEquals).bump).bump).close
        else if c₁.sees .equals then (((c₁.openNode .nameEquals).missing .identifier).bump).close
        else c₁) ∧ label.Formed promise (⟨.usingDirective, none⟩ :: (ns ++ x)) ∧ label.IsAlias := by
    split
    · exact ⟨.nil, .refl c₁, trivial, .inl rfl⟩
    · exact describes_alias promise _ c₁
  obtain ⟨names, hr, hrf, hnames⟩ := cites_line (x := ⟨.usingDirective, none⟩ :: (ns ++ x)) _
  exact h.addNode (n := ⟨.usingDirective, none⟩) (hb.trans (hl.trans hr))
    (.promised rfl ⟨_, label, names, rfl, ⟨l, rfl⟩, hlabel, hnames⟩)
    (Outline.formed_append.2 ⟨trivial, Outline.formed_append.2 ⟨hlf, hrf⟩⟩)

/-! ## The heads of constructors -/

theorem describes_moveToken (s : State) (x : List Opened) (p : Bool)
    (hb : inConstructor s.blocks = true → Opened.inConstructor x = true) :
    ∃ o : Outline, Describes s.cursor o (s.moveToken p).cursor ∧ o.Formed promise x := by
  have h : Grown promise x s.cursor [] (s.moveToken p).cursor :=
    grown_moveToken (.refl s.cursor) hb s.declares p
  exact h.outline

theorem describes_moveTokens (s : State) (x : List Opened) (n : Nat)
    (hb : inConstructor s.blocks = true → Opened.inConstructor x = true) :
    ∃ o : Outline, Describes s.cursor o (s.moveTokens n).cursor ∧ o.Formed promise x := by
  induction n generalizing s with
  | zero => exact ⟨.nil, .refl _, trivial⟩
  | succ n ih =>
      obtain ⟨o, ho, hf⟩ := describes_moveToken s x false hb
      obtain ⟨p, hp, hf'⟩ := ih (s.moveToken false) hb
      exact ⟨o ++ p, ho.trans hp, Outline.formed_append.2 ⟨hf, hf'⟩⟩

/-- No initializer begins among the first `n` lexemes ahead. -/
def Plain (c : Cursor) (n : Nat) : Prop :=
  ∀ i < n, c.kind (i + 1) = .dot → c.kind (i + 2) ≠ .newKeyword

theorem kind_succ {l : Lexeme} {ls : List Lexeme} (h : c.ahead = l :: ls) {c' : Cursor}
    (h' : c'.ahead = ls) (i : Nat) : c'.kind i = c.kind (i + 1) := by
  rw [Cursor.kind, Cursor.kind, h, h', List.getElem?_cons_succ]

theorem Plain.not_seesInitializer {n : Nat} (h : Plain c (n + 1)) (bs : List Block) :
    ¬ seesInitializer bs c = true := by
  intro hs
  simp only [seesInitializer, Bool.and_eq_true, beq_iff_eq] at hs
  exact h 0 (Nat.succ_pos n) hs.1.1.2 hs.1.2

/-- Where no initializer begins, one lexeme is moved, and a name gets a node. -/
theorem describes_one {s : State} {l : Lexeme} {ls : List Lexeme} (x : List Opened)
    (ha : s.cursor.ahead = l :: ls) (hi : ¬ seesInitializer s.blocks s.cursor = true) :
    ∃ o : Outline, Describes s.cursor o (s.moveToken false).cursor ∧ o.Formed promise x ∧
      o.lexemes = [l] ∧ (l.kind ≠ .newKeyword → o.Lacks .newKeyword) ∧
      (l.kind ≠ .identifier → o = .token l .nil) := by
  show ∃ o : Outline, Describes s.cursor o (moveToken s.blocks s.declares false s.cursor) ∧ _
  unfold moveToken
  split
  · next hs =>
      have hl : l.kind = .identifier := by
        rw [Cursor.sees, Cursor.kind, ha] at hs
        exact eq_of_beq hs
      have hn (k : NodeKind) (hk : k = .identifierName ∨ k = .declarator) :
          ∃ o : Outline, Describes s.cursor o (s.cursor.wrap k) ∧ o.Formed promise x ∧
            o.lexemes = [l] ∧ (l.kind ≠ .newKeyword → o.Lacks .newKeyword) ∧
            (l.kind ≠ .identifier → o = .token l .nil) := by
        have hf := Outline.formed_node (P := promise) (x := x) (.name hk hl) trivial
        exact ⟨_, .node (.token ha), hf, rfl, fun _ => trivial, absurd hl⟩
      unfold moveName
      split
      · exact hn _ (.inr rfl)
      · exact hn _ (.inl rfl)
  · exact ⟨_, .token ha, trivial, rfl, fun hl => ⟨hl, trivial⟩, fun _ => rfl⟩

/-- Where no initializer begins, as many lexemes are moved as are counted. -/
theorem describes_exactly (s : State) (x : List Opened) {n : Nat}
    (hn : n ≤ s.cursor.ahead.length) (hp : Plain s.cursor n) :
    ∃ o : Outline, Describes s.cursor o (s.moveTokens n).cursor ∧ o.Formed promise x ∧
      o.lexemes = s.cursor.ahead.take n ∧
      ((∀ l ∈ s.cursor.ahead.take n, l.kind ≠ .newKeyword) → o.Lacks .newKeyword) := by
  induction n generalizing s with
  | zero => exact ⟨.nil, .refl _, trivial, rfl, fun _ => trivial⟩
  | succ n ih =>
      cases ha : s.cursor.ahead with
      | nil =>
          rw [ha] at hn
          cases hn
      | cons l ls =>
          obtain ⟨o, ho, hf, hl, hlacks, -⟩ := describes_one x ha (hp.not_seesInitializer _)
          have ha' : (s.moveToken false).cursor.ahead = ls := by
            have h := ho.ahead
            rw [hl, ha] at h
            exact List.cons.inj h |>.2
          have hp' : Plain (s.moveToken false).cursor n := by
            intro i hi
            rw [kind_succ ha ha', kind_succ ha ha']
            exact hp (i + 1) (Nat.succ_lt_succ hi)
          have hn' : n ≤ (s.moveToken false).cursor.ahead.length := by
            rw [ha'] at *
            rw [ha] at hn
            exact Nat.le_of_succ_le_succ hn
          obtain ⟨p, hp, hf', hl', hlacks'⟩ := ih (s.moveToken false) hn' hp'
          rw [ha'] at hl' hlacks'
          refine ⟨o ++ p, ho.trans hp, Outline.formed_append.2 ⟨hf, hf'⟩, ?_, fun h => ?_⟩
          · rw [Outline.lexemes_append, hl, hl']
            rfl
          · rw [List.take_succ_cons, List.forall_mem_cons] at h
            exact Outline.lacks_append.2 ⟨hlacks h.1, hlacks' h.2⟩

theorem blocks_moveTokens (s : State) (n : Nat) : (s.moveTokens n).blocks = s.blocks := by
  induction n generalizing s with
  | zero => rfl
  | succ n ih => exact ih (s.moveToken false)

theorem declares_moveTokens (s : State) (n : Nat) : (s.moveTokens n).declares = s.declares := by
  induction n generalizing s with
  | zero => rfl
  | succ n ih => exact ih (s.moveToken false)

theorem moveTokens_add (s : State) (m n : Nat) :
    s.moveTokens (m + n) = (s.moveTokens m).moveTokens n := by
  induction m generalizing s with
  | zero => rw [Nat.zero_add]; rfl
  | succ m ih => rw [Nat.succ_add]; exact ih (s.moveToken false)

/-- Up to the first `New` no initializer begins, unless a dot stands before it. -/
theorem plain_of_first {u w : List Lexeme} {m : Lexeme} (ha : c.ahead = u ++ m :: w)
    (hm : m.kind = .newKeyword) (hu : ∀ l ∈ u, l.kind ≠ .newKeyword)
    (hd : ∀ d, u.getLast? = some d → d.kind ≠ .dot) : Plain c u.length := by
  intro i hi h1 h2
  have hin {j : Nat} (hj : j < u.length) : c.kind j = u[j].kind := by
    rw [Cursor.kind, ha, List.getElem?_append_left hj, List.getElem?_eq_getElem hj]
  have hend : c.kind u.length = .newKeyword := by
    rw [Cursor.kind, ha, List.getElem?_append_right (Nat.le_refl _), Nat.sub_self]
    exact hm
  rcases Nat.lt_trichotomy (i + 1) u.length with hlt | he | hgt
  · rcases Nat.lt_or_eq_of_le (Nat.succ_le_of_lt hlt) with hlt' | he
    · rw [hin hlt'] at h2
      exact hu _ (List.getElem_mem hlt') h2
    · rw [hin hlt] at h1
      refine hd _ ?_ h1
      rw [List.getLast?_eq_getElem?, ← he]
      exact List.getElem?_eq_getElem hlt
  · rw [he, hend] at h1
    cases h1
  · omega

/-- The first of the lexemes with a property. -/
theorem exists_first {ls : List Lexeme} {k : TokenKind} (h : ∃ l ∈ ls, l.kind = k) :
    ∃ u m w, ls = u ++ m :: w ∧ m.kind = k ∧ ∀ l ∈ u, l.kind ≠ k := by
  have hf : (ls.find? fun l => l.kind == k).isSome = true := by
    obtain ⟨l, hl, he⟩ := h
    exact List.find?_isSome.2 ⟨l, hl, beq_iff_eq.2 he⟩
  obtain ⟨m, hm⟩ := Option.isSome_iff_exists.1 hf
  obtain ⟨hk, u, w, he, hu⟩ := List.find?_eq_some_iff_append.1 hm
  refine ⟨u, m, w, he, eq_of_beq hk, fun l hl hlk => ?_⟩
  have := hu l hl
  rw [hlk, beq_self_eq_true] at this
  cases this

/-- The first `New` of the head is moved to the top among the attributes and modifiers. -/
theorem describes_earlier {s : State} {u w : List Lexeme} {m : Lexeme} (x : List Opened)
    (hb : inConstructor s.blocks = true → Opened.inConstructor x = true)
    (ha : s.cursor.ahead = u ++ m :: w) (hm : m.kind = .newKeyword)
    (hu : ∀ l ∈ u, l.kind ≠ .newKeyword) (hd : ∀ d, u.getLast? = some d → d.kind ≠ .dot)
    (n : Nat) :
    ∃ a r, Describes s.cursor (a ++ .token m r) (s.moveTokens (u.length + (n + 1))).cursor ∧
      (a ++ .token m r).Formed promise x ∧ a.lexemes = u ∧ a.Lacks .newKeyword := by
  have hl : u.length ≤ s.cursor.ahead.length := by
    rw [ha, List.length_append]
    exact Nat.le_add_right _ _
  obtain ⟨a, hda, hfa, hla, hlacks⟩ := describes_exactly s x hl (plain_of_first ha hm hu hd)
  rw [ha, List.take_left] at hla hlacks
  have ha₁ : (s.moveTokens u.length).cursor.ahead = m :: w := by
    have h := hda.ahead
    rw [hla, ha] at h
    exact List.append_cancel_left h
  have hi : ¬ seesInitializer (s.moveTokens u.length).blocks
      (s.moveTokens u.length).cursor = true := by
    simp only [seesInitializer, Cursor.sees, Cursor.kind, ha₁, List.getElem?_cons_zero, hm]
    exact nofun
  obtain ⟨o, hdo, -, -, -, ho⟩ := describes_one x ha₁ hi
  obtain rfl := ho (by rw [hm]; exact nofun)
  obtain ⟨r, hdr, hfr⟩ := describes_moveTokens ((s.moveTokens u.length).moveToken false) x n
    (by show inConstructor (s.moveTokens u.length).blocks = true → _
        rwa [blocks_moveTokens])
  refine ⟨a, r, ?_, Outline.formed_append.2 ⟨hfa, hfr⟩, hla, hlacks hu⟩
  rw [moveTokens_add, Nat.add_comm n 1, moveTokens_add]
  exact hda.trans (hdo.trans hdr)

/-- The head of a constructor is ahead: attributes and modifiers, `Sub` and `New`. -/
structure SeesConstructor (c : Cursor) (before : List Lexeme) (sub new : Lexeme)
    (rest : List Lexeme) : Prop where
  ahead : c.ahead = before ++ sub :: new :: rest
  head : headLength true c.ahead = before.length
  isSub : sub.kind = .subKeyword
  isNew : new.kind = .newKeyword

theorem exists_seesConstructor {n : Nat} (h : headLength true c.ahead = n)
    (hs : c.kind n = .subKeyword) (hn : c.kind (n + 1) = .newKeyword) :
    ∃ before sub new rest, SeesConstructor c before sub new rest ∧ before.length = n := by
  have hs' : c.kind n ≠ .endOfFile := by rw [hs]; exact nofun
  have hn' : c.kind (n + 1) ≠ .endOfFile := by rw [hn]; exact nofun
  obtain ⟨sub, hsub, hsk, -⟩ := Cursor.exists_drop hs'
  obtain ⟨new, hnew, hnk, -⟩ := Cursor.exists_drop hn'
  have hl : (c.ahead.take n).length = n :=
    List.length_take_of_le (Nat.le_of_lt (Cursor.length_pos_of_kind_ne hs'))
  refine ⟨c.ahead.take n, sub, new, c.ahead.drop (n + 1 + 1), ⟨?_, ?_, hsk.trans hs, hnk.trans hn⟩,
    hl⟩
  · rw [← hnew, ← hsub, List.take_append_drop]
  · rw [h, hl]

namespace SeesConstructor

variable {s : State} {before rest : List Lexeme} {sub new : Lexeme}

/-- What is described where as many lexemes are moved as the head has, or more, begins with it. -/
theorem begins (h : SeesConstructor s.cursor before sub new rest) {o : Outline}
    (ho : Describes s.cursor o
      (((s.moveTokens before.length).move .bump).move .bump).cursor)
    (hf : FirstNew (before ++ [sub, new]) o) : BeginsConstructor o := by
  have ha : s.cursor.ahead = before ++ [sub, new] ++ rest := by
    rw [h.ahead, List.append_assoc]
    rfl
  have hp : before ++ [sub, new] <+: o.lexemes := by
    have hmoved := State.length_moveTokens_le s before.length
    have hahead := congrArg List.length ho.ahead
    rw [ha] at hmoved hahead
    simp only [State.ahead_move, Cursor.ahead_bump, List.length_append, List.length_cons,
      List.length_tail] at hmoved hahead
    refine List.prefix_of_prefix_length_le ⟨rest, ha.symm⟩ ⟨_, ho.ahead⟩ ?_
    simp only [List.length_append, List.length_cons, List.length_nil]
    omega
  obtain ⟨more, hm⟩ := hp
  have hl : o.lexemes = before ++ sub :: new :: more := by
    rw [← hm, List.append_assoc]
    rfl
  refine ⟨before, sub, new, more, hl, ?_, h.isSub, h.isNew, hf⟩
  have hk := h.head
  rw [h.ahead] at hk
  rw [hl]
  exact headLength_sub h.isSub hk

/-- A first `New` that is not among the attributes and modifiers is the one behind `Sub`. -/
theorem eq_of_first (h : SeesConstructor c before sub new rest) {u w : List Lexeme} {m : Lexeme}
    (he : before ++ [sub, new] = u ++ m :: w) (hm : m.kind = .newKeyword)
    (hu : before.length ≤ u.length) : u = before ++ [sub] ∧ m = new := by
  cases w with
  | nil =>
      have he : before ++ [sub] ++ [new] = u ++ [m] := by
        rw [List.append_assoc]
        exact he
      obtain ⟨hu, hm⟩ := List.append_inj' he rfl
      exact ⟨hu.symm, (List.cons.inj hm).1.symm⟩
  | cons v w =>
      have hl := congrArg List.length he
      simp only [List.length_append, List.length_cons, List.length_nil] at hl
      have hw : [sub, new].length = (m :: v :: w).length := by
        simp only [List.length_cons, List.length_nil]
        omega
      have hv := (List.append_inj' he hw).2
      rw [← (List.cons.inj hv).1, h.isSub] at hm
      cases hm

/-- Where the first `New` of the head is the one behind `Sub`, both are moved to the top. -/
theorem describes_behindSub (h : SeesConstructor s.cursor before sub new rest) (x : List Opened)
    (hb : ∀ l ∈ before, l.kind ≠ .newKeyword) :
    ∃ a, Describes s.cursor (a ++ .token new .nil)
        (((s.moveTokens before.length).move .bump).move .bump).cursor ∧
      (a ++ .token new .nil).Formed promise x ∧ a.lexemes = before ++ [sub] ∧
        a.Lacks .newKeyword := by
  have ha := h.ahead
  have hl : before.length ≤ s.cursor.ahead.length := by
    rw [ha, List.length_append]
    exact Nat.le_add_right _ _
  have hu : ∀ l ∈ before ++ [sub], l.kind ≠ .newKeyword := by
    intro l hl
    rcases List.mem_append.1 hl with hl | hl
    · exact hb l hl
    · rw [List.mem_singleton.1 hl, h.isSub]
      exact nofun
  have hd : ∀ d, (before ++ [sub]).getLast? = some d → d.kind ≠ .dot := by
    intro d hd
    rw [List.getLast?_concat] at hd
    rw [← Option.some.inj hd, h.isSub]
    exact nofun
  have hp : Plain s.cursor before.length := by
    have hp := plain_of_first (c := s.cursor) (u := before ++ [sub]) (w := rest) (m := new)
      (by rw [ha, List.append_assoc]; rfl) h.isNew hu hd
    intro i hi
    refine hp i ?_
    rw [List.length_append]
    exact Nat.lt_add_right _ hi
  obtain ⟨o, ho, hf, hlo, hlacks⟩ := describes_exactly s x hl hp
  rw [ha, List.take_left] at hlo hlacks
  have ha₁ : (s.moveTokens before.length).cursor.ahead = sub :: new :: rest := by
    have h := ho.ahead
    rw [hlo, ha] at h
    exact List.append_cancel_left h
  have h₁ : Describes _ (.token sub .nil) (s.moveTokens before.length).cursor.bump := .token ha₁
  have ha₂ : (s.moveTokens before.length).cursor.bump.ahead = new :: rest :=
    (List.cons.inj (h₁.ahead.trans ha₁)).2
  refine ⟨o ++ .token sub .nil, (ho.trans h₁).trans (.token ha₂), ?_, ?_, ?_⟩
  · exact Outline.formed_append.2 ⟨Outline.formed_append.2 ⟨hf, trivial⟩, trivial⟩
  · rw [Outline.lexemes_append, hlo]
    rfl
  · exact Outline.lacks_append.2 ⟨hlacks hb, by rw [h.isSub]; exact nofun, trivial⟩

/-- Whatever is moved with the attributes and modifiers, two more lexemes are moved behind it. -/
theorem describes_more (n : Nat) (s : State) {o : Outline}
    (ho : Describes s.cursor o (s.moveTokens n).cursor) (hf : o.Formed promise x) :
    ∃ p : Outline, Describes s.cursor (o ++ p)
        (((s.moveTokens n).move .bump).move .bump).cursor ∧ (o ++ p).Formed promise x := by
  obtain ⟨p, hp, hfp⟩ := Grown.exists_bump promise x (s.moveTokens n).cursor
  obtain ⟨q, hq, hfq⟩ := Grown.exists_bump promise x (s.moveTokens n).cursor.bump
  exact ⟨p ++ q, ho.trans (hp.trans hq),
    Outline.formed_append.2 ⟨hf, Outline.formed_append.2 ⟨hfp, hfq⟩⟩⟩

theorem describes_head (h : SeesConstructor s.cursor before sub new rest) (x : List Opened)
    (hb : inConstructor s.blocks = true → Opened.inConstructor x = true) :
    ∃ o : Outline, Describes s.cursor o
        (((s.moveTokens before.length).move .bump).move .bump).cursor ∧
      o.Formed promise x ∧ BeginsConstructor o := by
  have hnew : ∃ l ∈ before ++ [sub, new], l.kind = .newKeyword := ⟨new, by simp, h.isNew⟩
  obtain ⟨u, m, w, he, hm, hu⟩ := exists_first hnew
  by_cases hd : ∀ d, u.getLast? = some d → d.kind ≠ .dot
  · rcases Nat.lt_or_ge u.length before.length with hlt | hge
    · -- the first `New` is among the attributes and modifiers
      obtain ⟨k, hk⟩ := Nat.exists_eq_add_of_lt hlt
      have ha : s.cursor.ahead = u ++ m :: (w ++ rest) := by
        have hsplit : s.cursor.ahead = before ++ [sub, new] ++ rest := by
          rw [h.ahead, List.append_assoc]
          rfl
        rw [hsplit, he, List.append_assoc]
        rfl
      obtain ⟨a, r, ho, hf, hla, hlacks⟩ := describes_earlier x hb ha hm hu hd k
      rw [← Nat.add_assoc, ← hk] at ho
      obtain ⟨p, ho, hf⟩ := describes_more before.length s ho hf
      refine ⟨_, ho, hf, h.begins ho ⟨u, m, w, he, hm, hu, fun _ => ⟨a, r ++ p, ?_, hla, hlacks⟩⟩⟩
      rw [Outline.append_assoc]
      rfl
    · obtain ⟨rfl, rfl⟩ := h.eq_of_first he hm hge
      obtain ⟨a, ho, hf, hla, hlacks⟩ := h.describes_behindSub x
        fun l hl => hu l (List.mem_append_left _ hl)
      exact ⟨_, ho, hf, h.begins ho ⟨_, _, w, he, hm, hu, fun _ => ⟨a, .nil, rfl, hla, hlacks⟩⟩⟩
  · obtain ⟨o, ho, hf⟩ := describes_moveTokens s x before.length hb
    obtain ⟨p, ho, hf⟩ := describes_more before.length s ho hf
    exact ⟨_, ho, hf, h.begins ho ⟨u, m, w, he, hm, hu, fun h => absurd h hd⟩⟩

end SeesConstructor

/-! ## Lines -/

namespace State

/-- The nodes open are those of the open blocks, and inside them the nodes `ns`. -/
def Grown (c₀ : Cursor) (ns : List Opened) (s : State) : Prop :=
  Xref.Grown promise [] c₀ (ns ++ s.blocks.map Block.opened) s.cursor

namespace Grown

variable {n : Opened} {s : State}

theorem moveToken (h : Grown c₀ ns s) (p : Bool) : Grown c₀ ns (s.moveToken p) :=
  grown_moveToken h (fun hb => inConstructor_opened hb ns []) s.declares p

theorem moveTokens (h : Grown c₀ ns s) (n : Nat) : Grown c₀ ns (s.moveTokens n) := by
  induction n generalizing s with
  | zero => exact h
  | succ n ih => exact ih (h.moveToken false)

theorem openPlain {k : NodeKind} (h : Grown c₀ ns s) (hk : k.isPlain = true) :
    Grown c₀ (⟨k, none⟩ :: ns) (s.move (·.openNode k)) :=
  Xref.Grown.openPlain h hk

theorem bump (h : Grown c₀ ns s) : Grown c₀ ns (s.move .bump) :=
  Xref.Grown.bump h

theorem close (h : Grown c₀ (n :: ns) s) : Grown c₀ ns (s.move .close) :=
  Xref.Grown.close h

theorem push {b : Block} (h : Grown c₀ [b.opened] s) :
    Grown c₀ [] { s with blocks := b :: s.blocks } :=
  h

theorem finishLine (h : Grown c₀ ns s) : Grown c₀ ns s.finishLine := by
  unfold State.finishLine Grown
  simp only
  generalize hr : repeatUntil _ _ _ _ s.cursor = rest
  have h₁ : Xref.Grown promise [] c₀ (ns ++ s.blocks.map Block.opened) rest :=
    hr ▸ repeatUntil_induct (P := Xref.Grown promise [] c₀ _) s.cursor h fun _ _ h =>
      grown_moveToken h (fun hb => inConstructor_opened hb ns []) _ _
  split
  · exact h₁.bump
  · exact h₁

theorem moveNamespace (h : Grown c₀ [] s) (n : Nat) :
    Grown c₀ [] (s.openBlock .namespaceDeclaration n .namespace) :=
  push (b := .namespace) (((h.openPlain rfl).moveTokens n).bump).finishLine

theorem moveType (h : Grown c₀ [] s) (n : Nat) : Grown c₀ [] (s.moveType n) := by
  have h₀ : Grown c₀ [⟨.classDeclaration, none⟩] (s.move (·.openNode .classDeclaration)) :=
    Xref.Grown.openNode h holds_type
  have h₁ := (h₀.moveTokens n).bump
  refine push (b := .type _) (finishLine ?_)
  show Xref.Grown promise [] c₀ _ (if _ then _ else _)
  split
  · exact h₁.bump
  · exact Xref.Grown.missing h₁ nofun

theorem moveParameters (h : Grown c₀ ns s) (hd : s.declares = false) :
    Grown c₀ ns s.moveParameters := by
  unfold State.moveParameters
  split
  · next hs =>
      obtain ⟨a, ha, hf⟩ := describes_parameters _ (fun hb => inConstructor_opened hb ns [])
        (VisualBasic.length_moveToken_lt _ _ _) hd (Bool.and_eq_true_iff.1 hs).1
      exact Xref.Grown.add h ha hf
  · exact h

theorem moveMethodName (h : Grown c₀ ns s) :
    Grown c₀ ns (s.move (State.moveMethodName false)) := by
  show Xref.Grown promise [] c₀ _ (State.moveMethodName false s.cursor)
  unfold State.moveMethodName
  split
  · exact Xref.Grown.bump h
  · split
    · next hs => exact Xref.Grown.wrap h (Bool.and_eq_true_iff.1 hs).1 (.inr rfl)
    · exact Xref.Grown.missing h nofun

/-- A constructor is opened with all of its head. -/
theorem openConstructor {n : Nat} (h : Grown c₀ [] s) (hl : headLength true s.cursor.ahead = n)
    (hs : s.cursor.kind n = .subKeyword) (hn : s.cursor.kind (n + 1) = .newKeyword) :
    Grown c₀ [⟨.constructorDeclaration, none⟩]
      ((((s.move (·.openNode .constructorDeclaration)).moveTokens n).move .bump).move .bump) := by
  obtain ⟨before, sub, new, rest, hc, rfl⟩ := exists_seesConstructor
    (c := (s.move (·.openNode .constructorDeclaration)).cursor) hl hs hn
  obtain ⟨head, hd, hf, hh⟩ := hc.describes_head
    (⟨.constructorDeclaration, none⟩ :: (s.blocks.map Block.opened ++ [])) fun _ => rfl
  show Xref.Grown promise [] c₀ (_ :: List.map Block.opened (State.moveTokens _ _).blocks) _
  rw [blocks_moveTokens]
  exact Xref.Grown.openWith h hd (fun q => .promised rfl (hh.append q)) hf

theorem moveSignature {b : Bool} {n : Nat} (h : Grown c₀ [] s)
    (hl : headLength true s.cursor.ahead = n)
    (hb : b = true → s.cursor.kind n = .subKeyword ∧ s.cursor.kind (n + 1) = .newKeyword)
    (hd : s.declares = false) : Grown c₀ [⟨methodKind b, none⟩] (s.moveSignature b n) := by
  refine (moveParameters ?_ (by exact (declares_moveTokens _ n).trans hd)).finishLine
  cases b with
  | false => exact (((h.openPlain (k := .methodDeclaration) rfl).moveTokens n).bump).moveMethodName
  | true => exact h.openConstructor hl (hb rfl).1 (hb rfl).2

theorem moveMethod {n : Nat} (h : Grown c₀ [] s) (hl : headLength true s.cursor.ahead = n)
    (hd : s.declares = false) : Grown c₀ [] (s.moveMethod n) := by
  unfold State.moveMethod
  simp only
  generalize hb : (s.cursor.kind n == .subKeyword && s.cursor.kind (n + 1) == .newKeyword) = b
  have hk (ht : b = true) :
      s.cursor.kind n = .subKeyword ∧ s.cursor.kind (n + 1) = .newKeyword := by
    rw [ht, Bool.and_eq_true] at hb
    exact ⟨eq_of_beq hb.1, eq_of_beq hb.2⟩
  have h₁ := h.moveSignature hl hk hd
  split
  · refine push ?_
    cases b with
    | false =>
        simp only [Bool.false_eq_true, if_false]
        split <;> exact h₁
    | true => exact h₁
  · exact h₁.close

/-- Closing the blocks inside the one that the line ends leaves its node innermost. -/
theorem dropBlocks {w : TokenKind} {bs : List Block}
    (h : Xref.Grown promise [] c₀ (bs.map Block.opened) c) (hb : bs.any (closesWith w) = true) :
    ∃ b : Block, Xref.Grown promise [] c₀ (b.opened :: (dropBlocks w c bs).2.map Block.opened)
      (dropBlocks w c bs).1 := by
  induction bs generalizing c with
  | nil => cases hb
  | cons b bs ih =>
      rw [VisualBasic.dropBlocks]
      split
      · exact ⟨b, h⟩
      · next hc =>
          rw [List.any_cons, Bool.or_eq_true_iff] at hb
          exact ih (Xref.Grown.close h) (hb.resolve_left hc)

theorem moveEnd {w : TokenKind} (h : Grown c₀ [] s) (hb : s.blocks.any (closesWith w) = true)
    (n : Nat) : Grown c₀ [] (s.moveEnd n w) := by
  obtain ⟨b, hd⟩ := dropBlocks h hb
  have h₁ : Grown c₀ [b.opened] { s with
      cursor := (VisualBasic.dropBlocks w s.cursor s.blocks).1,
      blocks := (VisualBasic.dropBlocks w s.cursor s.blocks).2 } := hd
  exact (((h₁.moveTokens n).bump.bump).finishLine).close

theorem moveOther (h : Grown c₀ [] s) : Grown c₀ [] s.moveOther := by
  have hk : (lineKind s.blocks).isPlain = true := by
    unfold lineKind
    split <;> rfl
  have h₁ := (h.openPlain hk).moveToken false
  unfold State.moveOther
  simp only
  split
  · exact h₁.close
  · exact h₁.finishLine.close

theorem moveLine (h : Grown c₀ [] s) : Grown c₀ [] s.moveLine := by
  unfold State.moveLine
  obtain ⟨n, k, hn⟩ : ∃ n k, lineHead s.cursor = (n, k) := ⟨_, _, rfl⟩
  have hl : headLength true s.cursor.ahead = n := congrArg Prod.fst hn
  simp only [hn]
  generalize hd : (k == TokenKind.dimKeyword || (n > 0 && k == TokenKind.identifier)) = d
  have h₀ : Grown c₀ [] { s with declares := d } := h
  -- the line of a method declares nothing outside its parameters
  split
  · refine grown_moveImports h₀ fun ha => ?_
    have hk : (lineHead s.cursor).2 = .importsKeyword := congrArg Prod.snd hn
    have ha : s.cursor.ahead = [] := ha
    simp [lineHead, Cursor.kind, headLength, ha] at hk
  · exact h₀.moveNamespace n
  · exact h₀.moveType n
  · exact h₀.moveMethod hl (by simp [← hd])
  · exact h₀.moveMethod hl (by simp [← hd])
  · split
    · split
      · next hb => exact h₀.moveEnd hb n
      · exact h₀.moveOther
    · exact h₀.moveOther
  · exact h₀.moveOther

theorem run (h : Grown c₀ [] s) : Grown c₀ [] s.run :=
  repeatUntil_induct (P := Grown c₀ []) s h fun _ _ h => h.moveLine

end Grown

end State

/-- The events for a text are those of an outline of its lexemes. -/
theorem exists_outline (q : LexemeSeq) :
    ∃ o : Outline, events q = (o ++ .token q.last .nil).events ∧ o.lexemes = q.lexemes ∧
      o.Formed promise [] := by
  have h : State.Grown (.ofLexemes q.lexemes) [] ⟨.ofLexemes q.lexemes, [], false⟩ :=
    Grown.refl _
  have hr := h.run
  have he : (State.run ⟨.ofLexemes q.lexemes, [], false⟩).cursor.atEnd = true :=
    stop_repeatUntil (p := fun s : State => s.cursor.atEnd) _
  have ha := Cursor.atEnd_iff.1 he
  generalize hs : State.run ⟨.ofLexemes q.lexemes, [], false⟩ = s at hr ha
  have hc : Grown promise [] (.ofLexemes q.lexemes) [] (s.cursor.closeMany s.blocks.length) := by
    have hd := Xref.Grown.closeMany hr (m := s.blocks.length) (by simp)
    rwa [List.nil_append, List.drop_eq_nil_of_le (by simp)] at hd
  obtain ⟨o, ho, hf⟩ := hc.outline
  have hl := ho.ahead
  rw [Cursor.ahead_closeMany, ha, List.append_nil] at hl
  refine ⟨o, ?_, hl, hf⟩
  rw [events, hs, Outline.events_append]
  exact congrArg (· ++ _) ho.events

end Xref.VisualBasic
