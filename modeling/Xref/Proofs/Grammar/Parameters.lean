import Xref.Proofs.Grammar.Growth

/-!
# The names in lists

When a parser moves a name of a list, it settles for good whether the name is declared there, and it
looks at nothing but the lexemes on the two sides of the name. So a list is read right if every name
at its top is declared exactly if its two neighbours fit (`Outline.NamesBy`). What fits differs by
language.

Between two cursors such an outline is described (`Reads`). One step of a list adds an item to it,
and what stands behind an item is ahead when the item is moved, so the items read one after the
other make up a list that is read right (`Reads.trans`).
-/

namespace Xref

/-- A node around a name. -/
def NodeKind.isName : NodeKind → Bool
  | .identifierName | .declarator => true
  | _ => false

namespace Outline

variable {fits : Lexeme → Lexeme → Prop}

/-- The names at the top are declared if the lexemes before and behind them fit, where a lexeme
stands before the outline and others behind it. -/
def NamesBy (fits : Lexeme → Lexeme → Prop) (ahead : List Lexeme) : Outline → Lexeme → Prop
  | nil, _ => True
  | token l r, _ => r.NamesBy fits ahead l
  | missing _ r, b => r.NamesBy fits ahead b
  | node k c r, b =>
    (k.isName = true → ∀ a, (r.lexemes ++ ahead).head? = some a → (k = .declarator ↔ fits b a)) ∧
      r.NamesBy fits ahead (c.lexemes.getLastD b)

theorem getLastD_append (ls ms : List Lexeme) (b : Lexeme) :
    (ls ++ ms).getLastD b = ms.getLastD (ls.getLastD b) := by
  induction ls generalizing b with
  | nil => rfl
  | cons l ls ih => rw [List.cons_append, List.getLastD_cons, List.getLastD_cons, ih]

/-- Behind an outline its last lexeme stands before what follows, and before it what follows is
ahead. -/
theorem namesBy_append {o p : Outline} {ahead : List Lexeme} {b : Lexeme} :
    (o ++ p).NamesBy fits ahead b ↔
      o.NamesBy fits (p.lexemes ++ ahead) b ∧ p.NamesBy fits ahead (o.lexemes.getLastD b) := by
  induction o generalizing b with
  | nil => exact ⟨fun h => ⟨trivial, h⟩, And.right⟩
  | token l r ih =>
      rw [token_append, NamesBy, NamesBy, ih, lexemes, List.getLastD_cons]
  | missing k r ih => exact ih
  | node k c r _ ih =>
      rw [node_append, NamesBy, NamesBy, ih, lexemes_append, lexemes, getLastD_append, and_assoc,
        List.append_assoc]

/-- A name in a node that tells whether the lexemes next to it fit. -/
theorem namesBy_name {d : Bool} {l b : Lexeme} {ahead : List Lexeme}
    (h : ∀ a rest, ahead = a :: rest → (d = true ↔ fits b a)) :
    (node (if d then .declarator else .identifierName) (token l nil) nil).NamesBy fits ahead b := by
  refine ⟨fun _ a ha => ?_, trivial⟩
  obtain ⟨rest, rfl⟩ := List.head?_eq_some_iff.1 ha
  rw [← h a rest rfl]
  cases d <;> decide

/-- A list: names between parentheses, or a note that both parentheses are missing. -/
inductive IsList (fits : Lexeme → Lexeme → Prop) : Outline → Prop
  | ofParen (l : Lexeme) (o : Outline) (ahead : List Lexeme) (hl : l.kind = .openParen)
      (ho : o.NamesBy fits ahead l) : IsList fits (.token l o)
  | missing : IsList fits (.missing .openParen (.missing .closeParen .nil))

end Outline

/-- Names that are declared where their neighbours fit in two outlines, one described behind the
other, are so in both together. -/
theorem Describes.namesBy_append {fits : Lexeme → Lexeme → Prop} {c c' c'' : Cursor} {o p : Outline}
    (ho : Describes c o c') (hp : Describes c' p c'')
    (hn : ∀ b, c.previous = some b → o.NamesBy fits c'.ahead b)
    (hn' : ∀ b, c'.previous = some b → p.NamesBy fits c''.ahead b) {b : Lexeme}
    (hb : c.previous = some b) : (o ++ p).NamesBy fits c''.ahead b := by
  refine Outline.namesBy_append.2 ⟨hp.ahead ▸ hn b hb, hn' _ ?_⟩
  rw [ho.previous, hb, List.getLastD_eq_getLast?]
  cases o.lexemes.getLast? <;> rfl

/-- A name is moved into a node that tells whether its neighbours fit. -/
theorem describes_name {fits : Lexeme → Lexeme → Prop} {P : Promise} {x : List Opened} {c : Cursor}
    {d : Bool} {l : Lexeme} {rest : List Lexeme} (ha : c.ahead = l :: rest)
    (hl : l.kind = .identifier)
    (hf : ∀ b l a rest, c.previous = some b → c.ahead = l :: a :: rest → (d = true ↔ fits b a)) :
    let k : NodeKind := if d then .declarator else .identifierName
    let o := Outline.node k (.token l .nil) .nil
    Describes c o (c.wrap k) ∧ o.Formed P x ∧
      ∀ b, c.previous = some b → o.NamesBy fits (c.wrap k).ahead b := by
  intro k o
  have hk : k = .identifierName ∨ k = .declarator := by
    cases d
    · exact .inl rfl
    · exact .inr rfl
  refine ⟨.node (.token ha), Outline.formed_node (n := ⟨k, none⟩) (.name hk hl) trivial, ?_⟩
  intro b hb
  rw [Cursor.ahead_wrap, ha]
  exact Outline.namesBy_name fun a more hr => hf b l a more hb (by rw [ha, ← hr]; rfl)

/-- From one cursor to another an outline is described whose names are declared where their
neighbours fit. -/
def Reads (fits : Lexeme → Lexeme → Prop) (P : Promise) (x : List Opened) (c c' : Cursor) : Prop :=
  ∃ o : Outline, Describes c o c' ∧ o.Formed P x ∧
    ∀ b, c.previous = some b → o.NamesBy fits c'.ahead b

namespace Reads

variable {fits : Lexeme → Lexeme → Prop} {P : Promise} {x : List Opened} {c c' c'' : Cursor}
  {k : NodeKind}

theorem refl (c : Cursor) : Reads fits P x c c :=
  ⟨.nil, .refl c, trivial, fun _ _ => trivial⟩

theorem trans (h : Reads fits P x c c') (h' : Reads fits P x c' c'') : Reads fits P x c c'' := by
  obtain ⟨o, ho, hf, hn⟩ := h
  obtain ⟨p, hp, hf', hn'⟩ := h'
  exact ⟨o ++ p, ho.trans hp, Outline.formed_append.2 ⟨hf, hf'⟩,
    fun _ hb => ho.namesBy_append hp hn hn' hb⟩

theorem bump (c : Cursor) : Reads fits P x c c.bump := by
  cases ha : c.ahead with
  | nil =>
      rw [Cursor.bump, ha]
      exact refl c
  | cons l rest => exact ⟨_, .token ha, trivial, fun _ _ => trivial⟩

theorem missing (c : Cursor) {k : TokenKind} (hk : k ≠ .newKeyword) :
    Reads fits P x c (c.missing k) :=
  ⟨_, .missing c k, ⟨hk, trivial⟩, fun _ _ => trivial⟩

theorem expect (c : Cursor) {k : TokenKind} (hk : k ≠ .newKeyword) :
    Reads fits P x c (c.expect k) := by
  unfold Cursor.expect
  split
  · exact bump c
  · exact missing c hk

theorem name {d : Bool} (hs : c.sees .identifier = true)
    (hf : ∀ b l a rest, c.previous = some b → c.ahead = l :: a :: rest → (d = true ↔ fits b a)) :
    Reads fits P x c (c.wrap (if d then .declarator else .identifierName)) := by
  obtain ⟨l, rest, ha, hl⟩ := Cursor.ahead_of_sees hs (by decide)
  exact ⟨_, describes_name ha hl hf⟩

/-- A node around no name is added as a whole. -/
theorem node {o : Outline} (hd : Describes c (.node k o .nil) c')
    (hf : (Outline.node k o .nil).Formed P x) (hk : k.isName = false) : Reads fits P x c c' :=
  ⟨_, hd, hf, fun _ _ => ⟨fun h => absurd h (Bool.eq_false_iff.1 hk), trivial⟩⟩

/-- What is read behind an opening parenthesis makes a list. -/
theorem isList (h : Reads fits P x c.bump c') {l : Lexeme} {rest : List Lexeme}
    (ha : c.ahead = l :: rest) (hl : l.kind = .openParen) :
    ∃ o : Outline, Describes c o c' ∧ o.Formed P x ∧ o.IsList fits := by
  obtain ⟨o, ho, hf, hn⟩ := h
  have hb : c.bump.previous = some l := by rw [Cursor.bump, ha]
  exact ⟨_, .trans (.token ha) ho, hf, .ofParen l o _ hl (hn l hb)⟩

end Reads

end Xref
