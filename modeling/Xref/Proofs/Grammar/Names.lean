import Xref.Proofs.Grammar.CSharp
import Xref.Proofs.Grammar.VisualBasic

/-!
# Where the parsers put names

A name is meant to stand in a node of its own, in the node around an alias, or in a type or
constructor, which it names. A parser that moves a lexeme without asking for its kind may put a name
anywhere else. To tell where that happens, the events are read with the nodes that are open at each
of them and what these hold by then (`Event.opens`): events are tidy if each name was moved where the
language allows it (`Event.Tidy`).

C# allows a name nowhere else. In Visual Basic two moves let one slip (`Language.Allows`): the line
of an import begins with whatever begins the line, a modifier that is spelled as a name among that,
and where an initializer stands in the attributes of a line, the words behind them are counted as if
it were a single one, so that the move which is meant for `Sub` or `End` takes a later lexeme.
-/

namespace Xref

/-! ## What is open, and what it holds -/

/-- Open nodes, the innermost first, and what each of them holds. -/
abbrev OpenNodes := List (NodeKind × Outline)

/-- Something is added to what the innermost node holds. -/
def OpenNodes.add (p : Outline) : OpenNodes → OpenNodes
  | [] => []
  | (k, o) :: ns => (k, o ++ p) :: ns

/-- The innermost node is closed. -/
def OpenNodes.close : OpenNodes → OpenNodes
  | [] => []
  | (k, o) :: ns => add (.node k o .nil) ns

/-- The nodes that are open behind events, the newest first. -/
def Event.opens : List Event → OpenNodes
  | [] => [(.compilationUnit, .nil)]
  | .opened k :: es => (k, .nil) :: opens es
  | .token l :: es => (opens es).add (.token l .nil)
  | .missing k :: es => (opens es).add (.missing k .nil)
  | .closed :: es => (opens es).close

theorem OpenNodes.add_nil (ns : OpenNodes) : ns.add .nil = ns := by
  cases ns with
  | nil => rfl
  | cons n ns => rw [add, Outline.append_nil]

theorem OpenNodes.add_add (o p : Outline) (ns : OpenNodes) :
    (ns.add o).add p = ns.add (o ++ p) := by
  cases ns with
  | nil => rfl
  | cons n ns => rw [add, add, add, Outline.append_assoc]

/-- The events of an outline add it to what the innermost node holds. -/
theorem Event.opens_outline (o : Outline) (es : List Event) :
    opens (o.events.reverse ++ es) = (opens es).add o := by
  induction o generalizing es with
  | nil => exact (OpenNodes.add_nil _).symm
  | token l r ih =>
      rw [Outline.events, List.reverse_cons, List.append_assoc, ih]
      exact OpenNodes.add_add _ _ _
  | missing k r ih =>
      rw [Outline.events, List.reverse_cons, List.append_assoc, ih]
      exact OpenNodes.add_add _ _ _
  | node k c r ihc ihr =>
      have he : (Outline.node k c r).events.reverse ++ es =
          r.events.reverse ++ (.closed :: (c.events.reverse ++ .opened k :: es)) := by
        simp [Outline.events]
      rw [he, ihr, opens, ihc]
      exact OpenNodes.add_add _ _ _

/-- The innermost node that is open, and what it holds. -/
def Cursor.top? (c : Cursor) : Option (NodeKind × Outline) :=
  (Event.opens c.events).head?

theorem Describes.top? {c c' : Cursor} {o b : Outline} {k : NodeKind} (h : Describes c o c')
    (hc : c.top? = some (k, b)) : c'.top? = some (k, b ++ o) := by
  have he : c'.events = o.events.reverse ++ c.events := by
    rw [← List.reverse_reverse c'.events, h.events]
    simp
  obtain ⟨ns, hn⟩ := List.head?_eq_some_iff.1 hc
  rw [Cursor.top?, he, Event.opens_outline, hn]
  rfl

/-- The innermost node that is open is of the kind. -/
def Cursor.InNode (k : NodeKind) (c : Cursor) : Prop :=
  ∃ b, c.top? = some (k, b)

namespace Cursor.InNode

variable {k : NodeKind} {c c' : Cursor} {o : Outline}

theorem openNode (c : Cursor) (k : NodeKind) : (c.openNode k).InNode k :=
  ⟨.nil, rfl⟩

theorem describes (h : c.InNode k) (ho : Describes c o c') : c'.InNode k := by
  obtain ⟨b, hb⟩ := h
  exact ⟨_, ho.top? hb⟩

theorem bump (h : c.InNode k) : c.bump.InNode k := by
  cases ha : c.ahead with
  | nil =>
      rw [Cursor.bump, ha]
      exact h
  | cons t ts => exact h.describes (.token ha)

/-- The innermost node that has grown is the innermost that is open. -/
theorem of_grown {P : Promise} {x ns : List Opened} {c₀ : Cursor} {n : Opened}
    (h : Grown P x c₀ (n :: ns) c) : c.InNode n.kind := by
  obtain ⟨ws, o, hw, he, -⟩ := h
  obtain ⟨⟨n, b⟩, ws, rfl, rfl, rfl⟩ := List.map_eq_cons_iff.1 hw
  have he : c.events = o.events.reverse ++
      (.opened n.kind :: ((b.eventsIn ws).reverse ++ c₀.events)) := by
    rw [← List.reverse_reverse c.events, he]
    simp [Outline.eventsIn]
  rw [InNode, Cursor.top?, he, Event.opens_outline]
  exact ⟨_, rfl⟩

end Cursor.InNode

/-! ## Where names may stand -/

/-- A node in which a name has its place. -/
def NodeKind.takesNames : NodeKind → Bool
  | .identifierName | .declarator | .nameEquals | .classDeclaration | .constructorDeclaration =>
    true
  | _ => false

/-- An initializer stands at the top. -/
def Outline.HasInitializer : Outline → Prop
  | nil => False
  | token _ r | missing _ r => r.HasInitializer
  | node k _ r => k = .constructorInitializer ∨ r.HasInitializer

theorem Outline.hasInitializer_append {o p : Outline} :
    (o ++ p).HasInitializer ↔ o.HasInitializer ∨ p.HasInitializer := by
  induction o with
  | nil => exact (or_iff_right not_false).symm
  | token l r ih => exact ih
  | missing k r ih => exact ih
  | node k c r _ ih => rw [node_append, HasInitializer, HasInitializer, ih, or_assoc]

/-- A name may be moved into a node behind what the node holds. Visual Basic takes a modifier for
the word of an import if it begins the line, and whatever stands at the place of `Namespace`, `Sub`,
`Function` or `End` for that word if there is an initializer before it. -/
def Language.Allows (l : Language) (k : NodeKind) (before : Outline) (t : Lexeme) : Prop :=
  k.takesNames = true ∨ l = .visualBasic ∧
    (k = .usingDirective ∧ before = .nil ∧ VisualBasic.isModifier t = true ∨
      (k = .namespaceDeclaration ∨ k = .methodDeclaration) ∧ before.HasInitializer)

/-- Each name in an outline is allowed where it stands; the outline stands behind another one in a
node of the kind. -/
def Outline.Tidy (l : Language) (k : NodeKind) : Outline → Outline → Prop
  | nil, _ => True
  | token t r, b => (t.kind = .identifier → l.Allows k b t) ∧ r.Tidy l k (b ++ token t nil)
  | missing m r, b => r.Tidy l k (b ++ missing m nil)
  | node m c r, b => c.Tidy l m nil ∧ r.Tidy l k (b ++ node m c nil)

/-- Each name was moved where the language allows it. The newest event is first. -/
def Event.Tidy (l : Language) : List Event → Prop
  | [] => True
  | .token t :: es =>
    (t.kind = .identifier → ∃ k o, (opens es).head? = some (k, o) ∧ l.Allows k o t) ∧ Tidy l es
  | .opened _ :: es | .missing _ :: es | .closed :: es => Tidy l es

/-- The events of an outline are tidy as the outline is. -/
theorem Event.Tidy.outline {l : Language} {o b : Outline} {k : NodeKind} {ns : OpenNodes}
    {es : List Event} (h : Tidy l (o.events.reverse ++ es)) (hes : opens es = (k, b) :: ns) :
    o.Tidy l k b ∧ Tidy l es := by
  induction o generalizing k b ns es with
  | nil => exact ⟨trivial, h⟩
  | token t r ih =>
      rw [Outline.events, List.reverse_cons, List.append_assoc, List.singleton_append] at h
      obtain ⟨hr, ht, hes'⟩ := ih h (by rw [opens, hes]; rfl)
      refine ⟨⟨fun hi => ?_, hr⟩, hes'⟩
      obtain ⟨k', o, htop, ha⟩ := ht hi
      rw [hes] at htop
      cases htop
      exact ha
  | missing m r ih =>
      rw [Outline.events, List.reverse_cons, List.append_assoc, List.singleton_append] at h
      have hm : opens (.missing m :: es) = (k, b ++ .missing m .nil) :: ns := by
        rw [opens, hes]
        rfl
      have hr := ih h hm
      exact hr
  | node m c r ihc ihr =>
      have he : (Outline.node m c r).events.reverse ++ es =
          r.events.reverse ++ (.closed :: (c.events.reverse ++ .opened m :: es)) := by
        simp [Outline.events]
      rw [he] at h
      obtain ⟨hr, h⟩ := ihr h (by rw [opens, opens_outline, opens, hes]; rfl)
      obtain ⟨hc, hes'⟩ := ihc h (by rw [opens])
      exact ⟨⟨hc, hr⟩, hes'⟩

/-! ## Moves -/

/-- So far each name was moved where the language allows it. -/
def Cursor.Tidy (l : Language) (c : Cursor) : Prop :=
  Event.Tidy l c.events

namespace Cursor.Tidy

variable {l : Language} {c : Cursor} {k : NodeKind}

theorem openNode (h : c.Tidy l) (k : NodeKind) : (c.openNode k).Tidy l := h

theorem close (h : c.Tidy l) : c.close.Tidy l := h

theorem missing (h : c.Tidy l) (k : TokenKind) : (c.missing k).Tidy l := h

theorem closeMany (h : c.Tidy l) (n : Nat) : (c.closeMany n).Tidy l := by
  induction n generalizing c with
  | zero => exact h
  | succ n ih => exact ih h.close

/-- A lexeme is moved where it is allowed if it is a name. -/
theorem bump (h : c.Tidy l) (ha : ∀ t ∈ c.ahead.head?, t.kind = .identifier →
    ∃ k o, c.top? = some (k, o) ∧ l.Allows k o t) : c.bump.Tidy l := by
  unfold Cursor.bump
  split
  · exact h
  · next t ts ht => exact ⟨ha t (by rw [ht]; rfl), h⟩

/-- What is not a name may stand anywhere. -/
theorem bump_of_ne (h : c.Tidy l) (hk : c.kind 0 ≠ .identifier) : c.bump.Tidy l := by
  refine h.bump fun t ht hi => absurd ?_ hk
  obtain ⟨ts, ha⟩ := List.head?_eq_some_iff.1 ht
  rw [Cursor.kind, ha]
  exact hi

theorem bump_of_sees {m : TokenKind} (h : c.Tidy l) (hs : c.sees m = true)
    (hm : m ≠ .identifier) : c.bump.Tidy l :=
  h.bump_of_ne (eq_of_beq hs ▸ hm)

/-- In some nodes any name may stand. -/
theorem bump_in (h : c.Tidy l) (hi : c.InNode k) (hk : k.takesNames = true) : c.bump.Tidy l := by
  obtain ⟨b, hb⟩ := hi
  exact h.bump fun _ _ _ => ⟨k, b, hb, .inl hk⟩

theorem wrap (h : c.Tidy l) (hk : k.takesNames = true) : (c.wrap k).Tidy l :=
  ((h.openNode k).bump_in (.openNode c k) hk).close

theorem expect {m : TokenKind} (h : c.Tidy l) (hm : m ≠ .identifier) : (c.expect m).Tidy l := by
  unfold Cursor.expect
  split
  · next hs => exact h.bump_of_sees hs hm
  · exact h.missing m

/-- A lexeme that is no name moves as it is, and a name into a node. -/
theorem reference (h : c.Tidy l) :
    Cursor.Tidy l (if c.sees .identifier then c.wrap .identifierName else c.bump) := by
  split
  · exact h.wrap rfl
  · next hs => exact h.bump_of_ne fun hk => hs (beq_iff_eq.2 hk)

/-- An alias with its mark. -/
theorem label (h : c.Tidy l) : Cursor.Tidy l
    (if c.sees .identifier && c.kind 1 == .equals then
      (((c.openNode .nameEquals).bump).bump).close
    else if c.sees .equals then (((c.openNode .nameEquals).missing .identifier).bump).close
    else c) := by
  split
  · next hs =>
      have h₁ := (h.openNode .nameEquals).bump_in (.openNode c _) rfl
      refine (h₁.bump_of_ne ?_).close
      rw [Cursor.kind_bump]
      exact eq_of_beq (Bool.and_eq_true_iff.1 hs).2 ▸ nofun
  · split
    · next hs => exact (((h.openNode _).missing _).bump_of_sees (m := .equals) hs (by decide)).close
    · exact h

end Cursor.Tidy

/-! ## C# -/

namespace CSharp

open Cursor (Tidy)

variable {c : Cursor}

theorem tidy_moveName (h : c.Tidy .csharp) : (moveName c).Tidy .csharp := by
  unfold moveName
  split
  · exact h.wrap rfl
  · exact h.wrap rfl

theorem tidy_moveToken (h : c.Tidy .csharp) : (moveToken c).Tidy .csharp := by
  unfold moveToken
  split
  · exact tidy_moveName h
  · next hs => exact h.bump_of_ne fun hk => hs (beq_iff_eq.2 hk)

theorem tidy_moveTokens (h : c.Tidy .csharp) (n : Nat) : (moveTokens c n).Tidy .csharp := by
  induction n generalizing c with
  | zero => exact h
  | succ n ih => exact ih (tidy_moveToken h)

theorem tidy_moveUntil {k : List TokenKind} {f : Cursor → Cursor}
    {t : ∀ c, (f c).ahead = c.ahead.tail} (h : c.Tidy .csharp)
    (hf : ∀ {c : Cursor}, c.Tidy .csharp → (f c).Tidy .csharp) :
    (moveUntil k f t c).Tidy .csharp :=
  repeatUntil_induct (P := Tidy .csharp) c h fun _ _ h => hf h

theorem tidy_moveListItems (h : c.Tidy .csharp) : (moveListItems c).Tidy .csharp := by
  refine repeatUntil_induct (P := fun s : Cursor × Nat => s.1.Tidy .csharp) (c, 0) h ?_
  intro s _ hs
  split
  · next hk => exact hs.bump_of_ne (by rw [hk]; decide)
  · next hk => exact hs.bump_of_ne (by rw [hk]; decide)
  · exact tidy_moveToken hs

theorem tidy_moveList (h : c.Tidy .csharp) (k : NodeKind) : (moveList c k).Tidy .csharp := by
  unfold moveList
  simp only
  split
  · next hs =>
      have h₁ := (h.openNode k).bump_of_sees hs (by decide)
      exact ((tidy_moveListItems h₁).expect (by decide)).close
  · exact (((h.openNode k).missing _).missing _).close

/-- A head is added to the node that has been opened for it. -/
theorem inNode_moveTokens {k : NodeKind} (h : c.InNode k) (n : Nat) :
    (moveTokens c n).InNode k := by
  obtain ⟨o, ho, -⟩ := describes_moveTokens c n []
  exact h.describes ho

theorem tidy_moveUsing (h : c.Tidy .csharp) {n : Nat} (hk : c.kind n = .usingKeyword) :
    (moveUsing c n).Tidy .csharp := by
  have h₁ := tidy_moveTokens (h.openNode .usingDirective) n
  have h₂ := h₁.bump_of_ne (by rw [kind_moveTokens]; exact hk ▸ nofun)
  unfold moveUsing
  simp only
  refine (Tidy.expect (tidy_moveUntil (Tidy.label ?_) fun h => h.reference) (by decide)).close
  split
  · next hs => exact h₂.bump_of_sees (Bool.and_eq_true_iff.1 hs).1 (by decide)
  · exact h₂

theorem tidy_moveTypeWord (h : c.Tidy .csharp) (n : Nat) :
    (moveTypeWord c n).Tidy .csharp ∧ (moveTypeWord c n).InNode .classDeclaration := by
  have h₁ := tidy_moveTokens (h.openNode .classDeclaration) n
  have hi := inNode_moveTokens (.openNode c .classDeclaration) n
  have h₂ := h₁.bump_in hi rfl
  unfold moveTypeWord
  simp only
  split
  · exact ⟨h₂.bump_in hi.bump rfl, hi.bump.bump⟩
  · exact ⟨h₂, hi.bump⟩

theorem tidy_moveInitializer (h : c.Tidy .csharp) : (moveInitializer c).Tidy .csharp := by
  unfold moveInitializer
  split
  · next hs =>
      have h₁ := (h.openNode .constructorInitializer).bump_of_sees hs (by decide)
      refine (tidy_moveList ?_ _).close
      split
      · next hw =>
          rcases Bool.or_eq_true_iff.1 hw with hw | hw
          · exact h₁.bump_of_sees hw (by decide)
          · exact h₁.bump_of_sees hw (by decide)
      · exact h₁.missing _
  · exact h

namespace State

/-- So far each name was moved where the language allows it. -/
def Tidy (s : State) : Prop :=
  s.cursor.Tidy .csharp

variable {s : State}

theorem tidy_closeFrame (h : s.Tidy) : s.closeFrame.Tidy := by
  unfold closeFrame
  split
  · exact h
  · exact h.closeMany _

theorem tidy_moveNamespace (h : s.Tidy) {n : Nat} (hk : s.cursor.kind n = .namespaceKeyword) :
    (s.moveNamespace n).Tidy := by
  have h₁ := tidy_moveTokens (h.openNode .namespaceDeclaration) n
  have h₂ := h₁.bump_of_ne (by rw [kind_moveTokens]; exact hk ▸ nofun)
  have h₃ := tidy_moveUntil (k := [.openBrace, .semicolon, .closeBrace])
    (t := ahead_moveReference) h₂ fun h => h.reference
  unfold moveNamespace
  simp only
  split
  · next hs => exact h₃.bump_of_sees hs (by decide)
  · split
    · next hs => exact (h₃.bump_of_sees hs (by decide)).close
    · exact h₃.close

theorem tidy_moveType (h : s.Tidy) (n : Nat) : (s.moveType n).Tidy := by
  obtain ⟨h₁, hi⟩ := tidy_moveTypeWord h n
  have h₂ : Cursor.Tidy .csharp ((moveTypeWord s.cursor n).expect .identifier) := by
    unfold Cursor.expect
    split
    · exact h₁.bump_in hi rfl
    · exact h₁.missing _
  have h₃ := tidy_moveUntil (k := [.openBrace, .semicolon, .closeBrace])
    (t := ahead_moveToken) h₂ tidy_moveToken
  unfold moveType
  simp only
  split
  · next hs => exact h₃.bump_of_sees hs (by decide)
  · split
    · next hs => exact (h₃.bump_of_sees hs (by decide)).close
    · exact h₃.close

theorem tidy_moveConstructor (h : s.Tidy) (n : Nat) : (s.moveConstructor n).Tidy := by
  have h₁ := tidy_moveTokens (h.openNode .constructorDeclaration) n
  have h₂ := h₁.bump_in (inNode_moveTokens (.openNode _ _) n) rfl
  have h₃ := tidy_moveInitializer (tidy_moveList h₂ .parameterList)
  unfold moveConstructor
  simp only
  split
  · next hk => exact (h₃.openNode .block).bump_of_sees (beq_iff_eq.2 hk) (by decide)
  · next hk => exact (h₃.bump_of_sees (beq_iff_eq.2 hk) (by decide)).close
  · exact h₃.close
  · exact h₃.close
  · exact h₃.openNode .statement

theorem tidy_stepStatement (h : c.Tidy .csharp) (d m : Nat) (fs : List OpenFrame) :
    (stepStatement c d m fs).Tidy := by
  have go {k : TokenKind} (hk : c.kind 0 = k) (hn : k ≠ .identifier) : c.bump.Tidy .csharp :=
    h.bump_of_sees (beq_iff_eq.2 hk) hn
  unfold stepStatement
  split
  · exact h.closeMany m
  · exact h.closeMany m
  · next hk =>
      split
      · exact (go hk (by decide)).closeMany m
      · exact go hk (by decide)
  · next hk => exact (h.openNode .block).bump_of_sees (beq_iff_eq.2 hk) (by decide)
  · next hk => exact go hk (by decide)
  · next hk => exact go hk (by decide)
  · simp only
    split
    · exact tidy_moveList (tidy_moveName h) _
    · exact tidy_moveName h
  · next hk => exact go rfl hk

theorem tidy_moveItem (h : s.Tidy) : s.moveItem.Tidy := by
  unfold moveItem
  simp only
  split
  · next hk => exact tidy_moveUsing h (of_classify hk)
  · next hk => exact tidy_moveNamespace h (of_classify hk)
  · exact tidy_moveType h _
  · exact tidy_moveConstructor h _
  · exact h.openNode .memberDeclaration
  · exact h.openNode .statement

theorem tidy_step (h : s.Tidy) : s.step.Tidy := by
  obtain ⟨c, fs⟩ := s
  unfold step
  split
  · split
    · next hs => exact h.bump_of_sees hs (by decide)
    · exact tidy_moveItem h
  · split
    · exact tidy_closeFrame h
    · exact tidy_stepStatement h _ _ _
  · split
    · exact tidy_closeFrame (Cursor.Tidy.missing h _)
    · next hk => exact tidy_closeFrame (Cursor.Tidy.bump_of_sees h (beq_iff_eq.2 hk) (by decide))
    · exact tidy_moveItem h

theorem tidy_run (h : s.Tidy) : s.run.Tidy :=
  repeatUntil_induct (P := Tidy) s h fun _ _ h => tidy_step h

end State

end CSharp

/-! ## Visual Basic -/

namespace VisualBasic

open Cursor (InNode)

variable {c : Cursor}

/-- So far each name was moved where the language allows it. -/
abbrev Tidy (c : Cursor) : Prop :=
  c.Tidy .visualBasic

theorem tidy_moveListItems {move : Cursor → Cursor}
    {ht : ∀ c, c.ahead ≠ [] → (move c).ahead.length < c.ahead.length} (h : Tidy c)
    (hm : ∀ {c}, Tidy c → Tidy (move c)) : Tidy (moveListItems move ht c) := by
  refine repeatUntil_induct (P := fun s : Cursor × Nat => Tidy s.1) (c, 0) h ?_
  intro s _ hs
  split
  · next hk => exact hs.bump_of_sees (beq_iff_eq.2 hk) (by decide)
  · next hk => exact hs.bump_of_sees (beq_iff_eq.2 hk) (by decide)
  · exact hm hs

/-- A list whose line goes on ends at a closing parenthesis. -/
theorem sees_moveListItems {move : Cursor → Cursor}
    {ht : ∀ c, c.ahead ≠ [] → (move c).ahead.length < c.ahead.length}
    (h : (moveListItems move ht c).continuesAt 0 = true) :
    (moveListItems move ht c).sees .closeParen = true := by
  have hs : (!(moveListItems move ht c).continuesAt 0 ||
      ((moveListItems move ht c).sees .closeParen && _)) = true :=
    stop_repeatUntil (p := fun s : Cursor × Nat =>
      !s.1.continuesAt 0 || (s.1.sees .closeParen && s.2 == 0)) (c, 0)
  rw [h, Bool.not_true, Bool.false_or, Bool.and_eq_true] at hs
  exact hs.1

theorem tidy_list {move : Cursor → Cursor}
    {ht : ∀ c, c.ahead ≠ [] → (move c).ahead.length < c.ahead.length} (h : Tidy c)
    (hm : ∀ {c}, Tidy c → Tidy (move c)) : Tidy (closeList (moveListItems move ht c)) := by
  have h₁ : Tidy (moveListItems move ht c) := tidy_moveListItems h hm
  unfold closeList
  split
  · next hc => exact h₁.bump_of_sees (sees_moveListItems hc) (by decide)
  · exact h₁.missing _

theorem tidy_moveInitializer {bs : List Block} (h : Tidy c)
    (hs : seesInitializer bs c = true) : Tidy (moveInitializer c) := by
  simp only [seesInitializer, Cursor.sees, Bool.and_eq_true, Bool.or_eq_true, beq_iff_eq] at hs
  obtain ⟨⟨⟨⟨hq, -⟩, hd⟩, hn⟩, -⟩ := hs
  have h₁ : Tidy (c.openNode .constructorInitializer).bump :=
    (h.openNode _).bump_of_ne (by show c.kind 0 ≠ _; rcases hq with (hq | hq) | hq <;> simp [hq])
  have h₂ : Tidy (c.openNode .constructorInitializer).bump.bump :=
    h₁.bump_of_ne (by rw [Cursor.kind_bump]; show c.kind 1 ≠ _; rw [hd]; decide)
  have h₃ : Tidy (c.openNode .constructorInitializer).bump.bump.bump :=
    h₂.bump_of_ne (by
      rw [Cursor.kind_bump, Cursor.kind_bump]; show c.kind 2 ≠ _; rw [hn]; decide)
  unfold moveInitializer
  simp only
  generalize (c.openNode .constructorInitializer).bump.bump.bump = c' at h₃
  split
  · next hp =>
      have h₄ := (h₃.openNode .argumentList).bump_of_sees (Bool.and_eq_true_iff.1 hp).1 (by decide)
      exact (tidy_list h₄ fun h => h.reference).close.close
  · exact (((h₃.openNode _).missing _).missing _).close.close

theorem tidy_moveToken (h : Tidy c) (bs : List Block) (d p : Bool) :
    Tidy (moveToken bs d p c) := by
  unfold moveToken
  split
  · unfold moveName
    split
    · exact h.wrap rfl
    · exact h.wrap rfl
  · next hi =>
      split
      · next hs => exact tidy_moveInitializer h hs
      · exact h.bump_of_ne fun hk => hi (beq_iff_eq.2 hk)

/-! ### Heads -/

/-- One lexeme is moved, or an initializer. -/
theorem describes_oneOrInitializer (bs : List Block) (d p : Bool) (c : Cursor) :
    ∃ o : Outline, Describes c o (moveToken bs d p c) ∧
      (o.HasInitializer ∨ (moveToken bs d p c).ahead = c.ahead.tail) := by
  have bump : ∃ o : Outline, Describes c o c.bump := by
    obtain ⟨o, ho, -⟩ := Grown.exists_bump promise [] c
    exact ⟨o, ho⟩
  unfold moveToken
  split
  · have hw (k : NodeKind) : ∃ o : Outline, Describes c o (c.wrap k) := by
      obtain ⟨o, ho, -⟩ := Grown.exists_bump promise [] (c.openNode k)
      exact ⟨_, ho.node⟩
    obtain ⟨o, ho⟩ := hw (if declaresName d p c then .declarator else .identifierName)
    exact ⟨o, ho, .inr (Cursor.ahead_wrap _ _)⟩
  · split
    · next hs =>
        obtain ⟨-, q, e, n, rest, ha, hq⟩ := ahead_of_seesInitializer hs
        obtain ⟨o, ho, -⟩ := describes_moveInitializer [⟨.constructorDeclaration, none⟩] rfl ha hq
        exact ⟨_, ho, .inl (.inl rfl)⟩
    · obtain ⟨o, ho⟩ := bump
      exact ⟨o, ho, .inr (Cursor.ahead_bump _)⟩

/-- As many lexemes are moved as are counted, unless an initializer is among them. -/
theorem describes_counted (s : State) (n : Nat) :
    ∃ o : Outline, Describes s.cursor o (s.moveTokens n).cursor ∧
      (o.HasInitializer ∨ (s.moveTokens n).cursor.ahead = s.cursor.ahead.drop n) := by
  induction n generalizing s with
  | zero => exact ⟨.nil, .refl _, .inr rfl⟩
  | succ n ih =>
      obtain ⟨o, ho, ho'⟩ := describes_oneOrInitializer s.blocks s.declares false s.cursor
      obtain ⟨p, hp, hp'⟩ := ih (s.moveToken false)
      refine ⟨o ++ p, ho.trans hp, ?_⟩
      rw [Outline.hasInitializer_append]
      rcases ho' with ho' | ho'
      · exact .inl (.inl ho')
      rcases hp' with hp' | hp'
      · exact .inl (.inr hp')
      · refine .inr (hp'.trans ?_)
        show (moveToken s.blocks s.declares false s.cursor).ahead.drop n = _
        rw [ho', List.drop_tail]

/-- Whatever is moved next into the innermost node is allowed there: it takes names, or an
initializer stands in it. -/
def Lenient (c : Cursor) : Prop :=
  ∃ k b, c.top? = some (k, b) ∧ (k.takesNames = true ∨
    (k = .namespaceDeclaration ∨ k = .methodDeclaration) ∧ b.HasInitializer)

theorem Lenient.describes {c' : Cursor} {o : Outline} (h : Lenient c) (ho : Describes c o c') :
    Lenient c' := by
  obtain ⟨k, b, ht, ha⟩ := h
  refine ⟨k, _, ho.top? ht, ha.imp_right fun ⟨hk, hb⟩ => ⟨hk, ?_⟩⟩
  exact Outline.hasInitializer_append.2 (.inl hb)

theorem Lenient.bump (h : Lenient c) : Lenient c.bump := by
  obtain ⟨o, ho, -⟩ := Grown.exists_bump promise [] c
  exact h.describes ho

theorem Lenient.tidy_bump (hl : Lenient c) (h : Tidy c) : Tidy c.bump := by
  obtain ⟨k, b, ht, ha⟩ := hl
  exact h.bump fun _ _ _ => ⟨k, b, ht, ha.imp_right fun ha => ⟨rfl, .inr ha⟩⟩

/-- The node of a line that opens or closes a block. -/
def isBlockNode (k : NodeKind) : Prop :=
  k.takesNames = true ∨ k = .namespaceDeclaration ∨ k = .methodDeclaration

theorem Block.isBlockNode (b : Block) : isBlockNode b.opened.kind := by
  cases b
  case «namespace» => exact .inr (.inl rfl)
  case type => exact .inl rfl
  case constructor => exact .inl rfl
  case sub => exact .inr (.inr rfl)
  case function => exact .inr (.inr rfl)

/-- Behind the head of a line stands the lexeme that was counted to, or anything is allowed. -/
theorem lenient_moveTokens {s : State} {k : NodeKind} (hi : s.cursor.InNode k)
    (hk : isBlockNode k) (n : Nat) :
    Lenient (s.moveTokens n).cursor ∨
      ∀ i, (s.moveTokens n).cursor.kind i = s.cursor.kind (n + i) := by
  obtain ⟨o, ho, ho'⟩ := describes_counted s n
  obtain ⟨b, hb⟩ := hi
  rcases hk with hk | hk
  · exact .inl ⟨k, _, ho.top? hb, .inl hk⟩
  rcases ho' with ho' | ho'
  · exact .inl ⟨k, _, ho.top? hb, .inr ⟨hk, Outline.hasInitializer_append.2 (.inr ho')⟩⟩
  · refine .inr fun i => ?_
    rw [Cursor.kind, Cursor.kind, ho', List.getElem?_drop]

namespace State

variable {s : State}

/-- So far each name was moved where the language allows it. -/
def Tidy (s : State) : Prop :=
  VisualBasic.Tidy s.cursor

theorem tidy_moveTokens (h : s.Tidy) (n : Nat) : (s.moveTokens n).Tidy := by
  induction n generalizing s with
  | zero => exact h
  | succ n ih => exact ih (tidy_moveToken h s.blocks s.declares false)

theorem tidy_finishLine (h : s.Tidy) : s.finishLine.Tidy := by
  unfold finishLine Tidy
  simp only
  generalize hr : repeatUntil _ _ _ _ s.cursor = rest
  have h₁ : VisualBasic.Tidy rest :=
    hr ▸ repeatUntil_induct (P := VisualBasic.Tidy) s.cursor h fun _ _ h => tidy_moveToken h _ _ _
  have hs : (!rest.continuesAt 0 || rest.sees .colon) = true :=
    hr ▸ stop_repeatUntil (p := fun c : Cursor => !c.continuesAt 0 || c.sees .colon) s.cursor
  split
  · next hc =>
      rw [hc] at hs
      exact h₁.bump_of_sees hs (by decide)
  · exact h₁

/-- The lexeme behind the head of a line goes where it is allowed, if what was counted to is no
name. -/
theorem tidy_head {k : NodeKind} (h : s.Tidy) (hi : s.cursor.InNode k) (hk : isBlockNode k)
    {n : Nat} (hn : s.cursor.kind n ≠ .identifier) : ((s.moveTokens n).move .bump).Tidy := by
  have h₁ := tidy_moveTokens h n
  rcases lenient_moveTokens hi hk n with hl | hs
  · exact hl.tidy_bump h₁
  · exact h₁.bump_of_ne (by rw [hs]; exact hn)

theorem tidy_moveNamespace (h : s.Tidy) {n : Nat} (hn : s.cursor.kind n ≠ .identifier) :
    (s.openBlock .namespaceDeclaration n .namespace).Tidy := by
  have h₀ : (s.move (·.openNode .namespaceDeclaration)).Tidy := h
  exact tidy_finishLine (tidy_head h₀ (.openNode _ _) (.inr (.inl rfl)) hn)

/-- Behind the head of a line its node is still the innermost. -/
theorem inNode_head {k : NodeKind} (h : s.cursor.InNode k) (n : Nat) :
    ((s.moveTokens n).move .bump).cursor.InNode k := by
  obtain ⟨o, ho, -⟩ := describes_counted s n
  exact (h.describes ho).bump

theorem tidy_moveType (h : s.Tidy) {n : Nat} (hn : s.cursor.kind n ≠ .identifier) :
    (s.moveType n).Tidy := by
  have h₀ : (s.move (·.openNode .classDeclaration)).Tidy := h
  have hi : (s.move (·.openNode .classDeclaration)).cursor.InNode .classDeclaration :=
    .openNode _ _
  have h₁ := tidy_head h₀ hi (.inl rfl) hn
  refine tidy_finishLine ?_
  show VisualBasic.Tidy (if _ then _ else _)
  split
  · exact Cursor.Tidy.bump_in h₁ (inNode_head hi n) rfl
  · exact Cursor.Tidy.missing h₁ _

theorem tidy_moveParameters (h : s.Tidy) : s.moveParameters.Tidy := by
  unfold moveParameters
  split
  · next hs =>
      have h₁ := (Cursor.Tidy.openNode h .parameterList).bump_of_sees
        (Bool.and_eq_true_iff.1 hs).1 (by decide)
      exact (tidy_list h₁ fun h => tidy_moveToken h _ _ _).close
  · exact h

theorem tidy_moveSignature (h : s.Tidy) (b : Bool) {n : Nat}
    (hn : s.cursor.kind n ≠ .identifier) : (s.moveSignature b n).Tidy := by
  have h₀ : (s.move (·.openNode (methodKind b))).Tidy := h
  have hi : (s.move (·.openNode (methodKind b))).cursor.InNode (methodKind b) := .openNode _ _
  have hk : isBlockNode (methodKind b) := by
    cases b with
    | false => exact .inr (.inr rfl)
    | true => exact .inl rfl
  have h₁ := tidy_head h₀ hi hk hn
  have h₂ := inNode_head hi n
  refine tidy_finishLine (tidy_moveParameters ?_)
  cases b with
  | true => exact Cursor.Tidy.bump_in h₁ h₂ rfl
  | false =>
      show VisualBasic.Tidy (if _ then _ else if _ then _ else _)
      split
      · exact Cursor.Tidy.bump_in h₁ h₂ (by simp_all)
      · split
        · exact Cursor.Tidy.wrap h₁ rfl
        · exact Cursor.Tidy.missing h₁ _

theorem tidy_moveMethod (h : s.Tidy) {n : Nat} (hn : s.cursor.kind n ≠ .identifier) :
    (s.moveMethod n).Tidy := by
  have h₁ (b : Bool) := tidy_moveSignature h b hn
  unfold moveMethod
  simp only
  split
  · exact h₁ _
  · exact (h₁ _).close

theorem tidy_dropBlocks {c : Cursor} (h : VisualBasic.Tidy c) (w : TokenKind) (bs : List Block) :
    VisualBasic.Tidy (dropBlocks w c bs).1 := by
  induction bs generalizing c with
  | nil => exact h
  | cons b bs ih =>
      rw [dropBlocks]
      split
      · exact h
      · exact ih h.close

/-- Only words close a block. -/
theorem ne_identifier_of_closes {w : TokenKind} {bs : List Block}
    (h : bs.any (closesWith w) = true) : w ≠ .identifier := by
  rintro rfl
  obtain ⟨b, -, hb⟩ := List.any_eq_true.1 h
  cases b <;> cases hb

theorem tidy_moveEnd {c₀ : Cursor} (hg : Grown c₀ [] s) (h : s.Tidy) {n : Nat} {w : TokenKind}
    (hb : s.blocks.any (closesWith w) = true) (hn : s.cursor.kind n ≠ .identifier)
    (hw : s.cursor.kind (n + 1) = w) : (s.moveEnd n w).Tidy := by
  have hw' : s.cursor.kind (n + 1) ≠ .identifier := hw ▸ ne_identifier_of_closes hb
  have h₀ := tidy_dropBlocks h w s.blocks
  obtain ⟨b, hd⟩ := Grown.dropBlocks hg hb
  unfold moveEnd
  simp only
  generalize hs : ({ s with
    cursor := (dropBlocks w s.cursor s.blocks).1,
    blocks := (dropBlocks w s.cursor s.blocks).2 } : State) = s'
  have hk (i : Nat) : s'.cursor.kind i = s.cursor.kind i := by
    rw [← hs, Cursor.kind, Cursor.kind, ahead_dropBlocks]
  have h₁ : s'.Tidy := hs ▸ h₀
  have hi : s'.cursor.InNode b.opened.kind := hs ▸ Cursor.InNode.of_grown hd
  refine Cursor.Tidy.close (tidy_finishLine ?_)
  have h₂ := tidy_moveTokens h₁ n
  rcases lenient_moveTokens hi b.isBlockNode n with hl | hs
  · exact hl.bump.tidy_bump (hl.tidy_bump h₂)
  · refine Cursor.Tidy.bump_of_ne (Cursor.Tidy.bump_of_ne h₂ ?_) ?_
    · rw [hs, hk]
      exact hn
    · show (s'.moveTokens n).cursor.bump.kind 0 ≠ _
      rw [Cursor.kind_bump, hs, hk]
      exact hw'

theorem tidy_moveOther (h : s.Tidy) : s.moveOther.Tidy := by
  have h₁ : ((s.move (·.openNode (lineKind s.blocks))).moveToken false).Tidy :=
    tidy_moveToken (Cursor.Tidy.openNode h _) _ _ _
  unfold moveOther
  simp only
  split
  · exact Cursor.Tidy.close h₁
  · exact Cursor.Tidy.close (tidy_finishLine h₁)

end State

/-- What begins a head and is a name is a modifier. -/
theorem isModifier_of_headLength {b : Bool} {t : Lexeme} {ts : List Lexeme}
    (h : headLength b (t :: ts) ≠ 0) (ht : t.kind = .identifier) : isModifier t = true := by
  have ho : isOperator t '<' = false := by
    rw [isOperator, ht]
    rfl
  rw [headLength, ho] at h
  split at h
  · exact absurd rfl h
  · split at h
    · cases ‹false = true›
    · split at h
      · assumption
      · exact absurd rfl h

theorem tidy_moveImports (h : Tidy c) (hk : (State.lineHead c).2 = .importsKeyword) :
    Tidy (moveImports c) := by
  have h₁ : Tidy (c.openNode .usingDirective).bump := by
    refine Cursor.Tidy.bump (Cursor.Tidy.openNode h _) fun t ht hi =>
      ⟨_, _, rfl, .inr ⟨rfl, .inl ⟨rfl, rfl, ?_⟩⟩⟩
    obtain ⟨ts, ha⟩ := List.head?_eq_some_iff.1 ht
    have ha : c.ahead = t :: ts := ha
    have hl : headLength true (t :: ts) ≠ 0 := by
      intro h₀
      -- without a head the line begins with the word itself
      rw [State.lineHead, ha, h₀] at hk
      have hk : c.kind 0 = .importsKeyword := hk
      rw [Cursor.kind, ha] at hk
      cases hi.symm.trans hk
    exact isModifier_of_headLength hl hi
  unfold moveImports
  simp only
  refine Cursor.Tidy.close (repeatUntil_induct (P := Tidy) _ ?_ fun _ _ h => h.reference)
  split
  · exact h₁
  · exact h₁.label

namespace State

variable {s : State} {c₀ : Cursor}

theorem kind_of_lineHead {c : Cursor} {n : Nat} {k : TokenKind} (h : lineHead c = (n, k))
    (hk : k ≠ .badToken) : c.kind n = k := by
  obtain ⟨hn, h'⟩ := Prod.mk.inj h
  rw [hn] at h'
  split at h'
  · exact absurd h'.symm hk
  · exact h'

theorem tidy_moveLine (hg : Grown c₀ [] s) (h : s.Tidy) : s.moveLine.Tidy := by
  unfold moveLine
  obtain ⟨n, k, hn⟩ : ∃ n k, lineHead s.cursor = (n, k) := ⟨_, _, rfl⟩
  have hk := kind_of_lineHead hn
  simp only [hn]
  generalize (k == TokenKind.dimKeyword || (n > 0 && k == TokenKind.identifier)) = d
  have hg : Grown c₀ [] { s with declares := d } := hg
  have h : Tidy { s with declares := d } := h
  split
  · exact tidy_moveImports h (congrArg Prod.snd hn)
  · exact tidy_moveNamespace h (by rw [hk nofun]; decide)
  · exact tidy_moveType h (by rw [hk nofun]; decide)
  · exact tidy_moveMethod h (by rw [hk nofun]; decide)
  · exact tidy_moveMethod h (by rw [hk nofun]; decide)
  · split
    · next w hw =>
        split
        · next hb =>
            refine tidy_moveEnd hg h hb (by rw [hk nofun]; decide) ?_
            unfold endWord? at hw
            split at hw
            · exact Option.some.inj hw
            · cases hw
        · exact tidy_moveOther h
    · exact tidy_moveOther h
  · exact tidy_moveOther h

theorem tidy_run (hg : Grown c₀ [] s) (h : s.Tidy) : s.run.Tidy := by
  have hr : Grown c₀ [] s.run ∧ s.run.Tidy :=
    repeatUntil_induct (P := fun s => Grown c₀ [] s ∧ s.Tidy) s ⟨hg, h⟩
      fun _ _ h => ⟨h.1.moveLine, tidy_moveLine h.1 h.2⟩
  exact hr.2

end State

end VisualBasic

end Xref
