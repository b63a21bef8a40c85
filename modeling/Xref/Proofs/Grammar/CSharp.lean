import Xref.Grammar.CSharp
import Xref.Proofs.Grammar.Imports

/-!
# What the parser of C# describes

A type begins with attributes and modifiers, the word for a type and its name; a constructor begins
with attributes and modifiers and the name of the type whose member it is; an import begins with
attributes and modifiers and `using` (`promise`). Names among the attributes and modifiers stand in
nodes of their own, so no other name stands before these at the top. The name of a type is kept in
its frame, and a frame of a type fits to the node of that type (`Fits`), so the name that tells a
constructor is the name that its type begins with.

Every frame closes as many nodes as it counts. So between two rounds the nodes that are open are as
many as the frames count, and one round keeps it that way (`State.Grown.step`). At the end no frame
is left, nothing is open, and the events are those of an outline of all lexemes
(`exists_outline`).
-/

namespace Xref.CSharp

/-! ## What types and constructors begin with -/

/-- The word for a type: `class` and its like, `record`, or `record` and another such word. -/
inductive IsTypeWord : Outline → Prop
  | keyword (w : Lexeme) (hw : w.kind = .typeKeyword) : IsTypeWord (.token w .nil)
  | record (w : Lexeme) (hw : w.kind = .identifier) (hv : String.ofList w.value = "record") :
      IsTypeWord (.token w .nil)
  | recordOf (w k : Lexeme) (hw : w.kind = .identifier) (hv : String.ofList w.value = "record")
      (hk : k.kind = .typeKeyword) : IsTypeWord (.token w (.token k .nil))

/-- A name, or a note that it is missing. -/
inductive IsName : Outline → Text → Prop
  | ofLexeme (l : Lexeme) (hl : l.kind = .identifier) : IsName (.token l .nil) l.value
  | missing : IsName (.missing .identifier .nil) []

/-- Attributes and modifiers, one lexeme at a time and each name in a node of its own. -/
structure IsHead (before : Outline) : Prop where
  width : before.width = before.lexemes.length
  names : before.NamesIn NodeKind.isName

/-- Attributes and modifiers come first, then the word for a type, and its name. -/
def BeginsType (name : Text) (o : Outline) : Prop :=
  ∃ before word it rest, o = before ++ word ++ it ++ rest ∧ IsHead before ∧
    headLength 0 o.lexemes = before.lexemes.length ∧ IsTypeWord word ∧ IsName it name

/-- Attributes and modifiers come first, then the name that tells a constructor. -/
def BeginsConstructor (name : Text) (o : Outline) : Prop :=
  ∃ before l rest, o = before ++ .token l rest ∧ before.Lacks .identifier ∧
    l.kind = .identifier ∧ l.value = name

/-- The lexeme may end the name of a type: a name that is no word of the language, a built-in type,
a closing bracket or a question mark. -/
def EndsType (l : Lexeme) : Prop :=
  (l.kind = .identifier ∧ String.ofList l.value ∉ nonTypeWords) ∨
    l.kind = .predefinedTypeKeyword ∨ l.kind = .closeBracket ∨
      (l.kind = .operator ∧ l.value = ['?'])

/-- The lexeme may stand behind a name that is declared. -/
def EndsName (l : Lexeme) : Prop :=
  l.kind ∈ [.equals, .semicolon, .comma, .closeParen, .openParen, .openBrace, .arrow, .endOfFile] ∨
    (l.kind = .keyword ∧ String.ofList l.value = "in")

/-- A name between the two is declared. -/
def DeclaresBetween (b a : Lexeme) : Prop :=
  EndsType b ∧ EndsName a

/-- Attributes and modifiers come first, whose names are declared where their neighbours fit, then
`using`, and perhaps `static`. -/
def BeginsImport (o : Outline) : Prop :=
  ∃ before word more ahead, o = before ++ .token word more ∧ IsHead before ∧
    (before ++ .token word .nil).NamesFrom DeclaresBetween ahead ∧ word.kind = .usingKeyword ∧
      (more = .nil ∨ ∃ w, more = .token w .nil ∧ w.kind = .keyword ∧
        String.ofList w.value = "static")

/-- What imports, types and constructors begin with, and what lists of parameters declare. -/
def promise : Promise := fun around n o =>
  match n.kind with
  | .usingDirective => o.IsImport BeginsImport
  | .classDeclaration => ∃ name, n.name? = some name ∧ BeginsType name o
  | .constructorDeclaration => ∃ name outer,
      around = ⟨.classDeclaration, some name⟩ :: outer ∧ BeginsConstructor name o
  | .parameterList => o.IsList DeclaresBetween
  | _ => True

theorem IsTypeWord.lexemes {word : Outline} (h : IsTypeWord word) :
    ∃ w more, word.lexemes = w :: more ∧
      (w.kind = .typeKeyword ∨ (w.kind = .identifier ∧ String.ofList w.value = "record")) := by
  cases h with
  | keyword w hw => exact ⟨w, _, rfl, .inl hw⟩
  | record w hw hv => exact ⟨w, _, rfl, .inr ⟨hw, hv⟩⟩
  | recordOf w k hw hv hk => exact ⟨w, _, rfl, .inr ⟨hw, hv⟩⟩

/-- Attributes and modifiers end at the word for a type, whatever stands behind it. -/
theorem headLength_typeWord {w : Lexeme} {pre r r' : List Lexeme} {d : Nat}
    (hw : w.kind = .typeKeyword ∨ (w.kind = .identifier ∧ String.ofList w.value = "record"))
    (h : headLength d (pre ++ w :: r) = pre.length) :
    headLength d (pre ++ w :: r') = pre.length := by
  have hm (k : TokenKind) : isModifier w k = false := by
    rcases hw with hw | ⟨hw, hv⟩
    · rw [isModifier, hw]
    · rw [isModifier, hw]
      simp only [hv]
      rfl
  have hb : w.kind ≠ .openBracket := by
    rcases hw with hw | ⟨hw, -⟩ <;> rw [hw] <;> exact nofun
  induction pre generalizing d with
  | nil =>
      cases d with
      | zero =>
          rw [List.nil_append, headLength, if_neg hb, hm]
          rfl
      | succ d =>
          rw [List.nil_append, headLength] at h
          split at h <;> exact absurd h (by rw [List.length_nil]; omega)
  | cons l pre ih =>
      have hf : firstKind (pre ++ w :: r') = firstKind (pre ++ w :: r) := by
        cases pre <;> rfl
      have step {d : Nat} (h : 1 + headLength d (pre ++ w :: r) = (l :: pre).length) :
          1 + headLength d (pre ++ w :: r') = (l :: pre).length := by
        rw [List.length_cons, Nat.add_comm] at h ⊢
        rw [ih (Nat.succ_inj.1 h)]
      cases d with
      | zero =>
          rw [List.cons_append, headLength] at h ⊢
          simp only [hf] at h ⊢
          split at h
          · next hl => rw [if_pos hl]; exact step h
          · next hl =>
              rw [if_neg hl]
              split at h
              · next hm => rw [if_pos hm]; exact step h
              · cases h
      | succ d =>
          rw [List.cons_append, headLength.eq_def] at h ⊢
          dsimp only at h ⊢
          split at h <;> exact step h

theorem IsHead.append {o p : Outline} (h : IsHead o) (h' : IsHead p) : IsHead (o ++ p) where
  width := by
    rw [Outline.width_append, Outline.lexemes_append, List.length_append, h.width, h'.width]
  names := Outline.namesIn_append.2 ⟨h.names, h'.names⟩

theorem BeginsType.append {name : Text} {o : Outline} (h : BeginsType name o) (p : Outline) :
    BeginsType name (o ++ p) := by
  obtain ⟨before, word, it, rest, rfl, hb, hn, hw, hi⟩ := h
  refine ⟨before, word, it, rest ++ p, Outline.append_assoc _ _ _, hb, ?_, hw, hi⟩
  obtain ⟨w, more, hl, hk⟩ := hw.lexemes
  simp only [Outline.lexemes_append, hl, List.append_assoc, List.cons_append] at hn ⊢
  exact headLength_typeWord hk hn

theorem BeginsConstructor.append {name : Text} {o : Outline} (h : BeginsConstructor name o)
    (p : Outline) : BeginsConstructor name (o ++ p) := by
  obtain ⟨before, l, rest, rfl, h⟩ := h
  exact ⟨before, l, rest ++ p, Outline.append_assoc _ _ _, h⟩

variable {c₀ c : Cursor} {x ns : List Opened}

/-! ## Names, runs and lists -/

theorem grown_moveName (h : Grown promise x c₀ ns c) (hs : c.sees .identifier = true) :
    Grown promise x c₀ ns (moveName c) := by
  unfold moveName
  split
  · exact h.wrap hs (.inr rfl)
  · exact h.wrap hs (.inl rfl)

theorem grown_moveToken (h : Grown promise x c₀ ns c) : Grown promise x c₀ ns (moveToken c) := by
  unfold moveToken
  split
  · next hs => exact grown_moveName h hs
  · exact h.bump

theorem grown_moveTokens (h : Grown promise x c₀ ns c) (n : Nat) :
    Grown promise x c₀ ns (moveTokens c n) := by
  induction n generalizing c with
  | zero => exact h
  | succ n ih => exact ih (grown_moveToken h)

theorem grown_moveReference (h : Grown promise x c₀ ns c) :
    Grown promise x c₀ ns (moveReference c) := by
  unfold moveReference
  split
  · next hs => exact h.wrap hs (.inl rfl)
  · exact h.bump

theorem grown_moveUntil {k : List TokenKind} {f : Cursor → Cursor}
    {t : ∀ c, (f c).ahead = c.ahead.tail} (h : Grown promise x c₀ ns c)
    (hf : ∀ {c}, Grown promise x c₀ ns c → Grown promise x c₀ ns (f c)) :
    Grown promise x c₀ ns (moveUntil k f t c) :=
  repeatUntil_induct (P := Grown promise x c₀ ns) c h fun _ _ h => hf h

/-- Whether a name is declared depends on the lexemes on its two sides. -/
theorem declares_iff {b l a : Lexeme} {rest : List Lexeme} (hb : c.previous = some b)
    (ha : c.ahead = l :: a :: rest) : declares c = true ↔ DeclaresBetween b a := by
  have hk : c.kind 1 = a.kind := by rw [Cursor.kind, ha]; rfl
  have hv : c.valueIs 1 "in" = (String.ofList a.value == "in") := by
    rw [Cursor.valueIs, Cursor.value, ha]
    rfl
  unfold declares followsType DeclaresBetween EndsType EndsName
  rw [hb, hk, hv, Bool.and_eq_true]
  dsimp only
  refine and_congr ?_ ?_
  · generalize b.kind = k
    cases k <;> simp
  · generalize a.kind = k
    cases k <;> simp

/-- A name that is moved gets a node, so it is not left at the top, and is declared where its
neighbours fit. -/
theorem describes_moveToken (c : Cursor) (x : List Opened) :
    ∃ o : Outline, Describes c o (moveToken c) ∧ o.Formed promise x ∧ IsHead o ∧
      ∀ b, c.previous = some b → o.NamesBy DeclaresBetween (moveToken c).ahead b := by
  unfold moveToken
  split
  · next hs =>
      obtain ⟨l, rest, ha, hl⟩ := Cursor.ahead_of_sees hs (by decide)
      obtain ⟨hd, hf, hn⟩ := describes_name (P := promise) (x := x) ha hl
        fun _ _ _ _ hb ha => declares_iff hb ha
      refine ⟨_, hd, hf, ⟨rfl, ?_, trivial⟩, hn⟩
      split <;> rfl
  · next hs =>
      cases ha : c.ahead with
      | nil =>
          have hb : c.bump = c := by rw [Cursor.bump, ha]
          rw [hb]
          exact ⟨.nil, .refl c, trivial, ⟨rfl, trivial⟩, fun _ _ => trivial⟩
      | cons l rest =>
          have hl : l.kind ≠ .identifier := fun hl => hs <| by
            rw [Cursor.sees, Cursor.kind, ha]
            exact beq_iff_eq.2 hl
          exact ⟨_, .token ha, trivial, ⟨rfl, hl, trivial⟩, fun _ _ => trivial⟩

theorem describes_moveTokens (c : Cursor) (n : Nat) (x : List Opened) :
    ∃ o : Outline, Describes c o (moveTokens c n) ∧ o.Formed promise x ∧ IsHead o ∧
      ∀ b, c.previous = some b → o.NamesBy DeclaresBetween (moveTokens c n).ahead b := by
  induction n generalizing c with
  | zero => exact ⟨.nil, .refl c, trivial, ⟨rfl, trivial⟩, fun _ _ => trivial⟩
  | succ n ih =>
      obtain ⟨o, ho, hf, hh, hn⟩ := describes_moveToken c x
      obtain ⟨p, hp, hf', hh', hn'⟩ := ih (moveToken c)
      exact ⟨o ++ p, ho.trans hp, Outline.formed_append.2 ⟨hf, hf'⟩, hh.append hh',
        fun _ hb => ho.namesBy_append hp hn hn' hb⟩

theorem kind_moveTokens (c : Cursor) (n m : Nat) : (moveTokens c n).kind m = c.kind (n + m) := by
  rw [Cursor.kind, Cursor.kind, ahead_moveTokens, List.getElem?_drop]

theorem reads_moveToken (c : Cursor) (x : List Opened) :
    Reads DeclaresBetween promise x c (moveToken c) := by
  obtain ⟨o, hd, hf, -, hn⟩ := describes_moveToken c x
  exact ⟨o, hd, hf, hn⟩

theorem reads_moveListItems (c : Cursor) (x : List Opened) :
    Reads DeclaresBetween promise x c (moveListItems c) := by
  refine repeatUntil_induct (P := fun s : Cursor × Nat => Reads DeclaresBetween promise x c s.1)
    (c, 0) (.refl c) ?_
  intro s _ hs
  split
  · exact hs.trans (.bump s.1)
  · exact hs.trans (.bump s.1)
  · exact hs.trans (reads_moveToken s.1 x)

/-- A list is a node of its own, whatever stands in it. -/
theorem describes_moveList (c : Cursor) (k : NodeKind) (x : List Opened) :
    ∃ a : Outline, Describes c (.node k a .nil) (moveList c k) ∧
      a.Formed promise (⟨k, none⟩ :: x) ∧ a.IsList DeclaresBetween := by
  unfold moveList
  simp only
  split
  · next hs =>
      obtain ⟨l, rest, ha, hl⟩ := Cursor.ahead_of_sees hs (by decide)
      obtain ⟨a, hd, hf, hi⟩ := Reads.isList (x := ⟨k, none⟩ :: x)
        ((reads_moveListItems (c.openNode k).bump _).trans (.expect _ (k := .closeParen) nofun))
        ha hl
      exact ⟨a, hd.node, hf, hi⟩
  · refine ⟨_, .node (.trans (.missing _ .openParen) (.missing _ .closeParen)), ?_, .missing⟩
    exact ⟨nofun, nofun, trivial⟩

theorem grown_moveList (h : Grown promise x c₀ ns c) :
    Grown promise x c₀ ns (moveList c .parameterList) := by
  obtain ⟨a, ha, hf, hi⟩ := describes_moveList c .parameterList (ns ++ x)
  exact h.add ha (Outline.formed_node (n := ⟨.parameterList, none⟩) (.promised rfl hi) hf)

/-! ## The words that tell items -/

/-- What stands behind the attributes and modifiers of an item. A constructor has the name of the
type whose members are read. -/
def Item.Stands (fs : List OpenFrame) (c : Cursor) (n : Nat) : Item → Prop
  | .using => c.kind n = .usingKeyword
  | .namespace => c.kind n = .namespaceKeyword
  | .type => c.kind n = .typeKeyword ∨ (c.kind n = .identifier ∧ c.valueIs n "record" = true)
  | .constructor => c.kind n = .identifier ∧ typeName? fs = some (c.value n)
  | .member | .statement => True

theorem stands_classify (fs : List OpenFrame) (c : Cursor) (n : Nat) :
    (classify fs c n).Stands fs c n := by
  have other : (if (typeName? fs).isSome then Item.member else .statement).Stands fs c n := by
    split <;> trivial
  unfold classify
  simp only
  split
  · next hk =>
      split
      · exact hk
      · exact other
  · next hk => exact hk
  · next hk => exact .inl hk
  · next hk =>
      split
      · next hr => exact .inr ⟨hk, (Bool.and_eq_true_iff.1 hr).1⟩
      · split
        · next hn => exact ⟨hk, eq_of_beq (Bool.and_eq_true_iff.1 hn).2⟩
        · exact other
  · exact other

theorem of_classify {fs : List OpenFrame} {n : Nat} {i : Item} (h : classify fs c n = i) :
    i.Stands fs c n :=
  h ▸ stands_classify fs c n

/-! ## Imports -/

/-- A name that modifies a declaration stands before a word that goes on with it. -/
theorem next_of_isModifier {l : Lexeme} {k : TokenKind} (hl : l.kind = .identifier)
    (h : isModifier l k = true) : k = .keyword ∨ k = .identifier ∨ k = .typeKeyword ∨
      k = .predefinedTypeKeyword ∨ k = .usingKeyword := by
  rw [isModifier, hl] at h
  simp only [Bool.or_eq_true, Bool.and_eq_true, beq_iff_eq] at h
  rcases h with ⟨-, ((h | h) | h) | h⟩ | ⟨-, h⟩
  · exact .inr (.inl h)
  · exact .inl h
  · exact .inr (.inr (.inl h))
  · exact .inr (.inr (.inr (.inl h)))
  · exact .inr (.inr (.inr (.inr h)))

/-- `in` ends attributes and modifiers. -/
theorem headLength_in {ls : List Lexeme} (hk : firstKind ls = .keyword)
    (hv : ls.head?.any fun w => String.ofList w.value == "in") : headLength 0 ls = 0 := by
  cases ls with
  | nil => rfl
  | cons w ls =>
      have hw : w.kind = .keyword := hk
      have hv : String.ofList w.value = "in" := eq_of_beq hv
      have hm (k : TokenKind) : isModifier w k = false := by
        rw [isModifier, hw]
        simp only [hv]
        rfl
      rw [headLength, if_neg (by simp [hw]), hm]
      rfl

/-- A modifier that comes first in an import is not declared. Of all that may stand behind a
modifier only `in` may stand behind a declared name, and it is no modifier, so `using` would have
to be in its place. -/
theorem declares_eq_false {m : Nat} (hs : c.sees .identifier = true)
    (hn : headLength 0 c.ahead = m + 1) (hk : c.kind (m + 1) = .usingKeyword) :
    declares c = false := by
  obtain ⟨l, rest, ha, hl⟩ := Cursor.ahead_of_sees hs (by decide)
  have hr : c.kind 1 = firstKind rest := by
    rw [Cursor.kind, ha]
    cases rest <;> rfl
  rw [ha, headLength, if_neg (by simp [hl])] at hn
  split at hn
  · next hm =>
      unfold declares
      rcases next_of_isModifier hl (hr ▸ hm) with h | h | h | h | h <;> rw [h]
      · refine Bool.and_eq_false_iff.2 (.inr (Bool.eq_false_iff.2 fun hv => ?_))
        have hin : headLength 0 rest = 0 := by
          refine headLength_in (hr.symm.trans h) ?_
          rw [Cursor.valueIs, Cursor.value, ha] at hv
          cases rest with
          | nil => cases hr.symm.trans h
          | cons w more => exact hv
        rw [hin] at hn
        obtain rfl : m = 0 := (Nat.succ.inj hn).symm
        cases h.symm.trans hk
      all_goals exact Bool.and_false _
  · cases hn

/-- Attributes and modifiers before `using` are moved one by one. -/
theorem describes_importHead {n : Nat} (hn : headLength 0 c.ahead = n)
    (hk : c.kind n = .usingKeyword) (x : List Opened) :
    ∃ o : Outline, Describes c o (moveTokens c n) ∧ o.Formed promise x ∧ IsHead o ∧
      o.NamesFrom DeclaresBetween (moveTokens c n).ahead := by
  cases n with
  | zero => exact ⟨.nil, .refl c, trivial, ⟨rfl, trivial⟩, .nil⟩
  | succ m =>
      obtain ⟨l, rest, ha⟩ : ∃ l rest, c.ahead = l :: rest := by
        have hlt := Cursor.length_pos_of_kind_ne (c := c) (n := m + 1) (by rw [hk]; decide)
        exact List.exists_cons_of_length_pos (Nat.zero_lt_of_lt hlt)
      have hl : l.kind = c.kind 0 := by rw [Cursor.kind, ha]; rfl
      rw [moveTokens, moveToken]
      split
      · next hs =>
          rw [moveName, declares_eq_false hs hn hk]
          have hd : Describes c (.node .identifierName (.token l .nil) .nil) _ := .node (.token ha)
          obtain ⟨o, ho, hf, hh, hb⟩ := describes_moveTokens (c.wrap .identifierName) m x
          refine ⟨_, hd.trans ho, ?_, .append ⟨rfl, rfl, trivial⟩ hh, .name l o (hb l ?_)⟩
          · refine Outline.formed_append.2 ⟨?_, hf⟩
            exact Outline.formed_node (.name (.inl rfl) (hl.trans (eq_of_beq hs))) trivial
          · exact hd.previous
      · next hs =>
          obtain ⟨o, ho, hf, hh, hb⟩ := describes_moveTokens c.bump m x
          have hne : l.kind ≠ .identifier := fun h => hs (beq_iff_eq.2 (hl.symm.trans h))
          have hd : Describes c (.token l .nil) c.bump := .token ha
          exact ⟨_, hd.trans ho, hf, .append ⟨rfl, hne, trivial⟩ hh, .token l o (hb l hd.previous)⟩

/-- Attributes, modifiers, `using` and perhaps `static` are what an import begins with. -/
theorem describes_beginsImport {n : Nat} (hn : headLength 0 c.ahead = n)
    (hk : c.kind n = .usingKeyword) (x : List Opened) :
    let c' := (moveTokens c n).bump
    ∃ o : Outline,
      Describes c o (if c'.sees .keyword && c'.valueIs 0 "static" then c'.bump else c') ∧
        o.Formed promise x ∧ BeginsImport o := by
  intro c'
  obtain ⟨before, hb, hf, hh, hnames⟩ := describes_importHead hn hk x
  obtain ⟨w, ha, hw, -⟩ := Cursor.exists_drop (c := c) (n := n) (by rw [hk]; decide)
  have ha := (ahead_moveTokens c n).trans ha
  rw [ha] at hnames
  have hd : Describes (moveTokens c n) (.token w .nil) c' := .token ha
  have begins (more : Outline) (h : more = .nil ∨ ∃ w, more = .token w .nil ∧ w.kind = .keyword ∧
      String.ofList w.value = "static") : BeginsImport (before ++ .token w more) :=
    ⟨before, w, more, _, rfl, hh, hnames.concat, hw.trans hk, h⟩
  split
  · next hs =>
      obtain ⟨hs, hv⟩ := Bool.and_eq_true_iff.1 hs
      obtain ⟨v, rest, ha, hvk⟩ := Cursor.ahead_of_sees hs (by decide)
      rw [Cursor.valueIs, Cursor.value, ha] at hv
      exact ⟨_, hb.trans (hd.trans (.token ha)), Outline.formed_append.2 ⟨hf, trivial⟩,
        begins _ (.inr ⟨v, rfl, hvk, eq_of_beq hv⟩)⟩
  · exact ⟨_, hb.trans hd, Outline.formed_append.2 ⟨hf, trivial⟩, begins .nil (.inl rfl)⟩

theorem cites_moveUntil {k : List TokenKind} (c : Cursor) :
    Cites promise x c (moveUntil k moveReference ahead_moveReference c) :=
  repeatUntil_induct (P := Cites promise x c) c (.refl c) fun c' _ h =>
    h.trans (.reference c')

/-- An import is added as a whole. -/
theorem grown_moveUsing (h : Grown promise x c₀ ns c) {n : Nat} (hn : headLength 0 c.ahead = n)
    (hk : c.kind n = .usingKeyword) : Grown promise x c₀ ns (moveUsing c n) := by
  unfold moveUsing
  simp only
  obtain ⟨before, hb, hbf, hbegins⟩ := describes_beginsImport (c := c.openNode .usingDirective)
    hn hk (⟨.usingDirective, none⟩ :: (ns ++ x))
  generalize (moveTokens (c.openNode .usingDirective) n).bump = c₁ at hb ⊢
  generalize (if c₁.sees .keyword && c₁.valueIs 0 "static" then c₁.bump else c₁) = c₂ at hb ⊢
  obtain ⟨label, ha, haf, hlabel⟩ :=
    describes_alias promise (⟨.usingDirective, none⟩ :: (ns ++ x)) c₂
  obtain ⟨names, hr, hrf, hnames⟩ := (cites_moveUntil _).trans
    (Cites.expect (P := promise) (x := ⟨.usingDirective, none⟩ :: (ns ++ x)) _
      (k := .semicolon) (by decide) (by decide))
  exact h.addNode (n := ⟨.usingDirective, none⟩) (hb.trans (ha.trans hr))
    (.promised rfl ⟨before, label, names, rfl, hbegins, hlabel, hnames⟩)
    (Outline.formed_append.2 ⟨hbf, Outline.formed_append.2 ⟨haf, hrf⟩⟩)

/-! ## Initializers -/

theorem grown_moveInitializer (h : Grown promise x c₀ ns c)
    (hk : Opened.inConstructor (ns ++ x) = true) :
    Grown promise x c₀ ns (moveInitializer c) := by
  unfold moveInitializer
  split
  · next hs =>
      obtain ⟨y, rest, hy, hc⟩ := Cursor.ahead_of_sees hs (by decide)
      have hy' : Describes (c.openNode .constructorInitializer) (.token y .nil) _ := .token hy
      simp only
      generalize ((c.openNode .constructorInitializer).bump) = c₁ at hy' ⊢
      split
      · next hw =>
          have hk' : c₁.kind 0 = .thisKeyword ∨ c₁.kind 0 = .baseKeyword := by
            simpa [Cursor.sees] using hw
          obtain ⟨w, rest, hw, he⟩ := Cursor.exists_ahead (c := c₁) fun he => by
            rcases hk' with hk' | hk' <;> cases hk'.symm.trans he
          rw [← he] at hk'
          obtain ⟨a, ha, hf, -⟩ := describes_moveList c₁.bump .argumentList
            (⟨.constructorInitializer, none⟩ :: (ns ++ x))
          have hd := (hy'.trans (.token hw)).trans ha
          exact h.initializer hd (.ofColon y w a hc hk')
            (Outline.formed_node (n := ⟨.argumentList, none⟩) (.plain rfl a) hf) hk
      · obtain ⟨a, ha, hf, -⟩ := describes_moveList (c₁.missing .thisKeyword) .argumentList
          (⟨.constructorInitializer, none⟩ :: (ns ++ x))
        have hd := (hy'.trans (.missing c₁ .thisKeyword)).trans ha
        exact h.initializer hd (.ofColonOnly y a hc)
          ⟨nofun, Outline.formed_node (n := ⟨.argumentList, none⟩) (.plain rfl a) hf⟩ hk
  · exact h

/-! ## The heads of types and constructors -/

/-- Behind attributes and modifiers stands the word for a type. -/
theorem describes_typeWord {fs : List OpenFrame} {n : Nat} (h : classify fs c n = .type)
    (x : List Opened) :
    ∃ word : Outline, Describes (moveTokens (c.openNode .classDeclaration) n) word
      (moveTypeWord c n) ∧ word.Formed promise x ∧ IsTypeWord word := by
  have hk := of_classify h
  obtain ⟨w, ha, hwk, hwv⟩ := Cursor.exists_drop fun (he : c.kind n = .endOfFile) => by
    rcases hk with hk | ⟨hk, -⟩ <;> cases hk.symm.trans he
  have ha := (ahead_moveTokens (c.openNode .classDeclaration) n).trans ha
  have hk : w.kind = .typeKeyword ∨ (w.kind = .identifier ∧ String.ofList w.value = "record") := by
    rw [hwk, hwv]
    exact hk.imp_right (And.imp_right eq_of_beq)
  unfold moveTypeWord
  simp only
  generalize moveTokens (c.openNode .classDeclaration) n = c₁ at ha ⊢
  have hw : Describes c₁ (.token w .nil) c₁.bump := .token ha
  split
  · next hs =>
      obtain ⟨hi, hs⟩ := Bool.and_eq_true_iff.1 hs
      obtain ⟨k, rest, ha', hkk⟩ := Cursor.ahead_of_sees hs (by decide)
      have hi : w.kind = .identifier := by
        rw [Cursor.sees, Cursor.kind, ha] at hi
        exact eq_of_beq hi
      refine ⟨_, hw.trans (.token ha'), trivial, .recordOf w k hi ?_ hkk⟩
      rcases hk with hk | ⟨-, hv⟩
      · cases hk.symm.trans hi
      · exact hv
  · refine ⟨_, hw, trivial, ?_⟩
    rcases hk with hk | ⟨hk, hv⟩
    · exact .keyword w hk
    · exact .record w hk hv

/-- The name of a type is what `moveType` puts into its frame. -/
theorem describes_typeHead {fs : List OpenFrame} {n : Nat} (hn : headLength 0 c.ahead = n)
    (h : classify fs c n = .type) (x : List Opened) :
    let c' := moveTypeWord c n
    ∃ o : Outline, Describes (c.openNode .classDeclaration) o (c'.expect .identifier) ∧
      o.Formed promise x ∧ BeginsType (if c'.sees .identifier then c'.value 0 else []) o := by
  intro c'
  obtain ⟨before, hb, hf, hl, -⟩ := describes_moveTokens (c.openNode .classDeclaration) n x
  obtain ⟨word, hw, hwf, hword⟩ := describes_typeWord h x
  have hname : ∃ it, Describes c' it (c'.expect .identifier) ∧ it.Formed promise x ∧
      IsName it (if c'.sees .identifier then c'.value 0 else []) := by
    unfold Cursor.expect
    split
    · next hs =>
        obtain ⟨l, rest, ha, hl⟩ := Cursor.ahead_of_sees hs (by decide)
        have hv : c'.value 0 = l.value := by rw [Cursor.value, ha]; rfl
        rw [hv]
        exact ⟨_, .token ha, trivial, .ofLexeme l hl⟩
    · exact ⟨_, .missing c' .identifier, ⟨by decide, trivial⟩, .missing⟩
  obtain ⟨it, hi, hif, hname⟩ := hname
  refine ⟨before ++ word ++ it, (hb.trans hw).trans hi, ?_, before, word, it, .nil, ?_, hl, ?_,
    hword, hname⟩
  · exact Outline.formed_append.2 ⟨Outline.formed_append.2 ⟨hf, hwf⟩, hif⟩
  · rw [Outline.append_nil]
  · obtain ⟨w, more, hwl, hwk⟩ := hword.lexemes
    have ha : before.lexemes ++ w :: (more ++ c'.ahead) = c.ahead := by
      rw [← List.cons_append, ← hwl, ← List.append_assoc, ← Outline.lexemes_append]
      exact (hb.trans hw).ahead
    rw [Outline.lexemes_append, Outline.lexemes_append, hwl, List.append_assoc, List.cons_append]
    refine headLength_typeWord (r := more ++ c'.ahead) hwk ?_
    have hb := congrArg List.length hb.ahead
    have hlt : n < c.ahead.length := Cursor.length_pos_of_kind_ne fun he => by
      rcases of_classify h with hk | ⟨hk, -⟩ <;> cases hk.symm.trans he
    rw [List.length_append, ahead_moveTokens, List.length_drop, Cursor.ahead_openNode] at hb
    rw [ha, hn]
    omega

theorem describes_constructorHead {fs : List OpenFrame} {n : Nat}
    (h : classify fs c n = .constructor) (x : List Opened) :
    ∃ o : Outline, Describes (c.openNode .constructorDeclaration) o
      (moveTokens (c.openNode .constructorDeclaration) n).bump ∧ o.Formed promise x ∧
        BeginsConstructor (c.value n) o := by
  obtain ⟨hk, -⟩ := of_classify h
  obtain ⟨before, hb, hf, hh, -⟩ := describes_moveTokens (c.openNode .constructorDeclaration) n x
  obtain ⟨l, ha, hlk, hlv⟩ := Cursor.exists_drop fun (he : c.kind n = .endOfFile) => by
    cases hk.symm.trans he
  have ha := (ahead_moveTokens (c.openNode .constructorDeclaration) n).trans ha
  refine ⟨before ++ .token l .nil, hb.trans (.token ha), ?_, before, l, .nil, rfl, hh.names.lacks,
    hlk.trans hk, hlv⟩
  exact Outline.formed_append.2 ⟨hf, trivial⟩

/-! ## Frames -/

/-- The open nodes are those that close with the frames, and the frame of a type has the name of
the node it closes with. -/
def Fits : List OpenFrame → List Opened → Prop
  | [], ns => ns = []
  | f :: fs, ns => f.nodes ≤ ns.length ∧
      (∀ name, f.frame = .type name → ∃ outer, ns = ⟨.classDeclaration, some name⟩ :: outer) ∧
      Fits fs (ns.drop f.nodes)

theorem fits_markAfterBlock {fs : List OpenFrame} (h : Fits fs ns) :
    Fits (markAfterBlock fs) ns := by
  unfold markAfterBlock
  split
  · exact ⟨h.1, nofun, h.2.2⟩
  · exact h

/-- As many nodes are open as the frames close. -/
def State.Grown (c₀ : Cursor) (s : State) : Prop :=
  ∃ ns, Xref.Grown promise [] c₀ ns s.cursor ∧ Fits s.frames ns

namespace State.Grown

variable {s : State} {fs : List OpenFrame}

theorem intro (h : Xref.Grown promise [] c₀ ns c) (hf : Fits fs ns) : Grown c₀ ⟨c, fs⟩ :=
  ⟨ns, h, hf⟩

theorem push {n : Opened} {f : Frame} (h : Xref.Grown promise [] c₀ (n :: ns) c)
    (hn : ∀ name, f = .type name → n = ⟨.classDeclaration, some name⟩) (hf : Fits fs ns) :
    Grown c₀ ⟨c, ⟨f, 1⟩ :: fs⟩ :=
  intro h ⟨Nat.le_add_left _ _, fun name hname => ⟨ns, by rw [hn name hname]⟩, hf⟩

theorem closeMany {m : Nat} (h : Xref.Grown promise [] c₀ ns c) (hm : m ≤ ns.length)
    (hf : Fits fs (ns.drop m)) : Grown c₀ ⟨c.closeMany m, fs⟩ :=
  intro (h.closeMany hm) hf

theorem closeFrame (h : Grown c₀ s) : Grown c₀ s.closeFrame := by
  obtain ⟨c, fs⟩ := s
  cases fs with
  | nil => exact h
  | cons f fs =>
      obtain ⟨ns, hg, hm, -, hf⟩ := h
      unfold State.closeFrame
      refine closeMany hg hm ?_
      split
      · exact fits_markAfterBlock hf
      · exact hf

theorem moveNamespace (h : Grown c₀ s) (n : Nat) : Grown c₀ (s.moveNamespace n) := by
  obtain ⟨ns, hg, hf⟩ := h
  have h₁ := grown_moveUntil (k := [.openBrace, .semicolon, .closeBrace])
    (t := ahead_moveReference)
    (grown_moveTokens (hg.openPlain (k := .namespaceDeclaration) rfl) n).bump grown_moveReference
  unfold State.moveNamespace
  simp only
  split
  · exact push h₁.bump (fun _ he => by cases he) hf
  · split
    · exact intro h₁.bump.close hf
    · exact intro h₁.close hf

theorem moveType {n : Nat} (h : Grown c₀ s) (hn : headLength 0 s.cursor.ahead = n)
    (hk : classify s.frames s.cursor n = .type) : Grown c₀ (s.moveType n) := by
  obtain ⟨ns, hg, hf⟩ := h
  unfold State.moveType
  simp only
  generalize hname : (if (moveTypeWord s.cursor n).sees .identifier then
    (moveTypeWord s.cursor n).value 0 else []) = name
  obtain ⟨head, hd, hhf, hh⟩ :=
    describes_typeHead hn hk (⟨.classDeclaration, some name⟩ :: (ns ++ []))
  rw [hname] at hh
  have h₀ := hg.openWith (n := ⟨.classDeclaration, some name⟩) hd
    (fun q => .promised rfl ⟨name, rfl, hh.append q⟩) hhf
  have h₁ := grown_moveUntil (k := [.openBrace, .semicolon, .closeBrace])
    (t := ahead_moveToken) h₀ grown_moveToken
  split
  · refine push h₁.bump (fun name' he => ?_) hf
    rw [Frame.type.inj he]
  · split
    · exact intro h₁.bump.close hf
    · exact intro h₁.close hf

/-- The innermost node is the type whose members are read. -/
theorem exists_outer {name : Text} (hf : Fits fs ns) (hn : typeName? fs = some name) :
    ∃ outer, ns = ⟨.classDeclaration, some name⟩ :: outer := by
  unfold typeName? at hn
  split at hn
  · obtain rfl := Option.some.inj hn
    exact hf.2.1 _ rfl
  · cases hn

theorem moveConstructor {n : Nat} (h : Grown c₀ s)
    (hk : classify s.frames s.cursor n = .constructor) : Grown c₀ (s.moveConstructor n) := by
  obtain ⟨ns, hg, hf⟩ := h
  obtain ⟨outer, rfl⟩ := exists_outer hf (of_classify hk).2
  obtain ⟨head, hd, hhf, hh⟩ := describes_constructorHead hk (⟨.constructorDeclaration, none⟩ ::
    (⟨.classDeclaration, some (s.cursor.value n)⟩ :: outer ++ []))
  have h₀ := hg.openWith (n := ⟨.constructorDeclaration, none⟩) hd
    (fun q => .promised rfl ⟨_, _, rfl, hh.append q⟩) hhf
  have h₁ := grown_moveInitializer (grown_moveList h₀) rfl
  unfold State.moveConstructor
  simp only
  have two (f : Frame) (hb : f = .block ∨ f = .statement 0 false) (k : NodeKind) :
      Fits (⟨f, 2⟩ :: s.frames)
        (⟨k, none⟩ :: ⟨.constructorDeclaration, none⟩ ::
          ⟨.classDeclaration, some (s.cursor.value n)⟩ :: outer) := by
    refine ⟨Nat.le_add_left _ _, fun name hname => ?_, hf⟩
    have hname : f = .type name := hname
    rcases hb with hb | hb <;> cases hb.symm.trans hname
  split
  · exact intro (h₁.openPlain (k := .block) rfl).bump (two _ (.inl rfl) _)
  · exact intro h₁.bump.close hf
  · exact intro h₁.close hf
  · exact intro h₁.close hf
  · exact intro (h₁.openPlain (k := .statement) rfl) (two _ (.inr rfl) _)

theorem stepStatement {m : Nat} (h : Xref.Grown promise [] c₀ ns c) (hm : m ≤ ns.length)
    (hf : Fits fs (ns.drop m)) (depth : Nat) : Grown c₀ (stepStatement c depth m fs) := by
  have go {c : Cursor} (h : Xref.Grown promise [] c₀ ns c) (d : Nat) :
      Grown c₀ ⟨c, ⟨.statement d false, m⟩ :: fs⟩ :=
    intro h ⟨hm, nofun, hf⟩
  unfold CSharp.stepStatement
  split
  · exact closeMany h hm hf
  · exact closeMany h hm hf
  · split
    · exact closeMany h.bump hm hf
    · exact go h.bump depth
  · exact push (h.openPlain (k := .block) rfl).bump nofun ⟨hm, nofun, hf⟩
  · exact go h.bump (depth + 1)
  · exact go h.bump (depth - 1)
  · next hi =>
      have h₁ := grown_moveName h (by simpa [Cursor.sees] using hi)
      simp only
      split
      · exact go (grown_moveList h₁) depth
      · exact go h₁ depth
  · exact go h.bump depth

theorem moveItem (h : Grown c₀ s) : Grown c₀ s.moveItem := by
  unfold State.moveItem
  simp only
  obtain ⟨ns, hg, hf⟩ := id h
  have ho (k : NodeKind) (hp : k.isPlain = true) : Grown c₀ (s.openStatement k) :=
    push (hg.openPlain hp) nofun hf
  split
  · next hk => exact intro (grown_moveUsing hg rfl (of_classify hk)) hf
  · exact h.moveNamespace _
  · next hk => exact h.moveType rfl hk
  · next hk => exact h.moveConstructor hk
  · exact ho .memberDeclaration rfl
  · exact ho .statement rfl

/-- A round keeps the nodes that are open in step with the frames. -/
theorem step (h : Grown c₀ s) : Grown c₀ s.step := by
  obtain ⟨c, fs⟩ := s
  obtain ⟨ns, hg, hf⟩ := id h
  unfold State.step
  split
  · split
    · exact intro hg.bump hf
    · exact h.moveItem
  · next depth after m gs he =>
      obtain rfl : fs = _ := he
      split
      · exact h.closeFrame
      · exact stepStatement hg hf.1 hf.2.2 depth
  · split
    · exact closeFrame (intro (hg.missing nofun) hf)
    · exact closeFrame (intro hg.bump hf)
    · exact h.moveItem

theorem run (h : Grown c₀ s) : Grown c₀ s.run :=
  repeatUntil_induct (P := Grown c₀) s h fun _ _ h => h.step

end State.Grown

/-- When the parser ends, nothing is ahead, as long as no lexeme passes for the end of the text. -/
theorem State.Grown.done {s : State} (h : Grown c₀ s) (hd : s.isDone = true)
    (he : ∀ l ∈ c₀.ahead, l.kind ≠ .endOfFile) :
    Xref.Grown promise [] c₀ [] s.cursor ∧ s.cursor.ahead = [] := by
  obtain ⟨ns, hg, hf⟩ := h
  obtain ⟨hfs, hs⟩ := Bool.and_eq_true_iff.1 hd
  rw [List.isEmpty_iff.1 hfs] at hf
  obtain rfl : ns = [] := hf
  refine ⟨hg, ?_⟩
  obtain ⟨ws, o, hw, -, hl, -, -⟩ := hg
  have hk : s.cursor.kind 0 = .endOfFile := by simpa [Cursor.sees] using hs
  cases ha : s.cursor.ahead with
  | nil => rfl
  | cons l rest =>
      rw [Cursor.kind, ha] at hk
      rw [ha] at hl
      exact absurd hk (he l (hl ▸ List.mem_append_right _ List.mem_cons_self))

/-- The events for a text are those of an outline of its lexemes. -/
theorem exists_outline (q : LexemeSeq) (he : ∀ l ∈ q.lexemes, l.kind ≠ .endOfFile) :
    ∃ o : Outline, events q = (o ++ .token q.last .nil).events ∧ o.lexemes = q.lexemes ∧
      o.Formed promise [] := by
  have h : State.Grown (.ofLexemes q.lexemes) ⟨.ofLexemes q.lexemes, []⟩ :=
    .intro (Grown.refl _) rfl
  obtain ⟨hg, ha⟩ := h.run.done (stop_repeatUntil _) he
  obtain ⟨o, ho, hf⟩ := hg.outline
  have hl := ho.ahead
  rw [ha, List.append_nil] at hl
  refine ⟨o, ?_, hl, hf⟩
  rw [events, ho.events, Outline.events_append]
  rfl

end Xref.CSharp
