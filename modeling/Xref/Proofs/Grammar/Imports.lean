import Xref.Proofs.Grammar.Parameters

/-!
# Imports

An import is moved in one go: what stands before its alias, the alias with its mark, and what is
imported (`Outline.IsImport`). Behind the mark every name is moved into a node of its own, in which
it refers (`Cites`).

What stands before the alias differs by language. In C# these are attributes and modifiers as well,
and their names get nodes too. Whether one of them is declared depends on its neighbours as it does
in a list, but for the lexeme that comes first: it has nothing before it, and is never declared
(`Outline.NamesFrom`).
-/

namespace Xref

namespace Outline

variable {q : NodeKind → Bool} {fits : Lexeme → Lexeme → Prop} {o p : Outline}
  {ahead : List Lexeme}

/-- No name stands at the top but in a node, and the nodes there are of kinds that pass. -/
def NamesIn (q : NodeKind → Bool) : Outline → Prop
  | nil => True
  | token l r => l.kind ≠ .identifier ∧ r.NamesIn q
  | missing k r => k ≠ .identifier ∧ r.NamesIn q
  | node k _ r => q k = true ∧ r.NamesIn q

theorem namesIn_append : (o ++ p).NamesIn q ↔ o.NamesIn q ∧ p.NamesIn q := by
  induction o with
  | nil => exact ⟨fun h => ⟨trivial, h⟩, And.right⟩
  | token l r ih => rw [token_append, NamesIn, NamesIn, ih, and_assoc]
  | missing k r ih => rw [missing_append, NamesIn, NamesIn, ih, and_assoc]
  | node k c r _ ih => rw [node_append, NamesIn, NamesIn, ih, and_assoc]

theorem NamesIn.lacks (h : o.NamesIn q) : o.Lacks .identifier := by
  induction o with
  | nil => trivial
  | token l r ih => exact ⟨h.1, ih h.2⟩
  | missing k r ih => exact ⟨h.1, ih h.2⟩
  | node k c r _ ih => exact ih h.2

/-- Nothing, or a lexeme that is not declared, and behind it names that are declared where their
neighbours fit. -/
inductive NamesFrom (fits : Lexeme → Lexeme → Prop) (ahead : List Lexeme) : Outline → Prop
  | nil : NamesFrom fits ahead .nil
  | token (l : Lexeme) (r : Outline) (h : r.NamesBy fits ahead l) :
      NamesFrom fits ahead (.token l r)
  | name (l : Lexeme) (r : Outline) (h : r.NamesBy fits ahead l) :
      NamesFrom fits ahead (.node .identifierName (.token l .nil) r)

theorem NamesFrom.concat {w : Lexeme} (h : o.NamesFrom fits (w :: ahead)) :
    (o ++ .token w .nil).NamesFrom fits ahead := by
  cases h with
  | nil => exact .token w .nil trivial
  | token l r h => exact .token l _ (namesBy_append.2 ⟨h, trivial⟩)
  | name l r h => exact .name l _ (namesBy_append.2 ⟨h, trivial⟩)

/-- An alias with its mark, or none. -/
def IsAlias (o : Outline) : Prop :=
  o = .nil ∨ ∃ a, o = .node .nameEquals a .nil

/-- An import that begins as it may: then comes the alias, if there is one, and what is imported,
each name in a node in which it refers. -/
def IsImport (begins : Outline → Prop) (o : Outline) : Prop :=
  ∃ before label names, o = before ++ (label ++ names) ∧ begins before ∧ label.IsAlias ∧
    names.NamesIn (· == .identifierName)

end Outline

variable {P : Promise} {x : List Opened} {c c' c'' : Cursor}

/-- From one cursor to another an outline is described in which every name refers. -/
def Cites (P : Promise) (x : List Opened) (c c' : Cursor) : Prop :=
  ∃ o : Outline, Describes c o c' ∧ o.Formed P x ∧ o.NamesIn (· == .identifierName)

namespace Cites

theorem refl (c : Cursor) : Cites P x c c :=
  ⟨.nil, .refl c, trivial, trivial⟩

theorem trans (h : Cites P x c c') (h' : Cites P x c' c'') : Cites P x c c'' := by
  obtain ⟨o, ho, hf, hn⟩ := h
  obtain ⟨p, hp, hf', hn'⟩ := h'
  exact ⟨o ++ p, ho.trans hp, Outline.formed_append.2 ⟨hf, hf'⟩, Outline.namesIn_append.2 ⟨hn, hn'⟩⟩

theorem bump (hs : c.kind 0 ≠ .identifier) : Cites P x c c.bump := by
  cases ha : c.ahead with
  | nil =>
      rw [Cursor.bump, ha]
      exact refl c
  | cons l rest =>
      rw [Cursor.kind, ha] at hs
      exact ⟨_, .token ha, trivial, hs, trivial⟩

theorem name (hs : c.sees .identifier = true) : Cites P x c (c.wrap .identifierName) := by
  obtain ⟨l, rest, ha, hl⟩ := Cursor.ahead_of_sees hs (by decide)
  exact ⟨_, .node (.token ha), Outline.formed_node (.name (.inl rfl) hl) trivial, rfl, trivial⟩

theorem reference (c : Cursor) :
    Cites P x c (if c.sees .identifier then c.wrap .identifierName else c.bump) := by
  split
  · next hs => exact name hs
  · next hs => exact bump fun h => hs (beq_iff_eq.2 h)

theorem expect (c : Cursor) {k : TokenKind} (hk : k ≠ .identifier) (hn : k ≠ .newKeyword) :
    Cites P x c (c.expect k) := by
  unfold Cursor.expect
  split
  · next hs => exact bump (eq_of_beq hs ▸ hk)
  · exact ⟨_, .missing c k, ⟨hn, trivial⟩, hk, trivial⟩

end Cites

/-- An alias ahead is moved with its mark into a node of their own, and so is a mark without an
alias. -/
theorem describes_alias (P : Promise) (x : List Opened) (c : Cursor) :
    ∃ o : Outline, Describes c o
        (if c.sees .identifier && c.kind 1 == .equals then
          (((c.openNode .nameEquals).bump).bump).close
        else if c.sees .equals then (((c.openNode .nameEquals).missing .identifier).bump).close
        else c) ∧ o.Formed P x ∧ o.IsAlias := by
  split
  · next h =>
      obtain ⟨hs, he⟩ := Bool.and_eq_true_iff.1 h
      obtain ⟨a, rest, ha, hl⟩ := Cursor.ahead_of_sees hs (by decide)
      obtain ⟨e, hd, hk, -⟩ := Cursor.exists_drop (c := c) (n := 1) (by rw [eq_of_beq he]; decide)
      have h₁ : Describes (c.openNode .nameEquals) (.token a .nil) _ := .token ha
      have h₂ : Describes ((c.openNode .nameEquals).bump) (.token e .nil) _ :=
        .token (by rw [Cursor.ahead_bump, Cursor.ahead_openNode, ← List.drop_one, hd])
      have hh : Holds P x ⟨.nameEquals, none⟩ (.token a (.token e .nil)) :=
        ⟨.inl ⟨a, e, rfl, hl, hk.trans (eq_of_beq he)⟩, nofun, nofun⟩
      exact ⟨_, (h₁.trans h₂).node, Outline.formed_node hh trivial, .inr ⟨_, rfl⟩⟩
  · split
    · next hs =>
        obtain ⟨e, rest, ha, -⟩ := Cursor.ahead_of_sees hs (by decide)
        have h₁ : Describes (c.openNode .nameEquals) (.missing .identifier .nil) _ := .missing _ _
        have hh : Holds P x ⟨.nameEquals, none⟩ (.missing .identifier (.token e .nil)) :=
          ⟨.inr ⟨e, rfl⟩, nofun, nofun⟩
        exact ⟨_, (h₁.trans (.token ha)).node, Outline.formed_node hh ⟨nofun, trivial⟩,
          .inr ⟨_, rfl⟩⟩
    · exact ⟨.nil, .refl c, trivial, .inl rfl⟩

end Xref
