import Xref.Grammar.Cursor
import Xref.Proofs.Tree.Outline

/-!
# What a cursor has described so far

On the way from one cursor to another a parser describes an outline, and moves past its lexemes
(`Describes`). In between, some nodes of the outline are still open. It is kept the way a zipper
keeps it: what stands in the innermost open node, and for each open node what stands before it.
`Grown P x c₀ ns c` says that from `c₀` to `c` such an outline has been described, inside the nodes
`x`, and that the nodes open in it are `ns`, innermost first.

A parser only ever opens, bumps, notes and closes, so each of its functions has one lemma: what was
grown stays grown, and these nodes are open now. Along goes what the semantics relies on: the nodes
that hold a name hold it and nothing else, and an initializer stands in a constructor and holds the
words that tell what it calls. What imports, types and constructors begin with and what names a list
of parameters declares differs by language and is the promise `P`; it is kept from the start,
whatever is added behind.
-/

namespace Xref

/-! ## Well-formed outlines -/

/-- A call of a constructor: `this` or `base` behind a colon, or `New` behind a dot and the word
before it, and the arguments. -/
inductive Outline.IsCall : Outline → Prop
  | ofColon (c w : Lexeme) (a : Outline) (hc : c.kind = .colon)
      (hw : w.kind = .thisKeyword ∨ w.kind = .baseKeyword) :
      IsCall (.token c (.token w (.node .argumentList a .nil)))
  | ofColonOnly (c : Lexeme) (a : Outline) (hc : c.kind = .colon) :
      IsCall (.token c (.missing .thisKeyword (.node .argumentList a .nil)))
  | ofDot (q d n : Lexeme) (a : Outline)
      (hq : q.kind = .meKeyword ∨ q.kind = .myClassKeyword ∨ q.kind = .myBaseKeyword) :
      IsCall (.token q (.token d (.token n (.node .argumentList a .nil))))

/-- What a node of a kind may have as its children. -/
def NodeKind.Admits (k : NodeKind) (o : Outline) : Prop :=
  match k with
  | .constructorInitializer => o.IsCall
  | .identifierName | .declarator => ∃ l, o = .token l .nil ∧ l.kind = .identifier
  | .nameEquals =>
    (∃ a e, o = .token a (.token e .nil) ∧ a.kind = .identifier ∧ e.kind = .equals) ∨
      ∃ e, o = .missing .identifier (.token e .nil)
  -- directives come with the tokens they stand before, and no parser opens one
  | .directive => False
  | _ => True

/-- A node around others, with the name that the language goes by inside it, if it goes by one. -/
structure Opened where
  kind : NodeKind
  name? : Option Text := none

/-- One of the nodes is a constructor. -/
def Opened.inConstructor (around : List Opened) : Bool :=
  around.any fun n => n.kind == .constructorDeclaration

/-- What the children of an import, a type, a constructor or a list of parameters are like, by the
nodes around it. -/
abbrev Promise := List Opened → Opened → Outline → Prop

/-- A node that languages promise something about. -/
def NodeKind.isPromised : NodeKind → Bool
  | .usingDirective | .classDeclaration | .constructorDeclaration | .parameterList => true
  | _ => false

/-- A node that may have any children, anywhere. -/
def NodeKind.isPlain : NodeKind → Bool
  | .identifierName | .declarator | .nameEquals | .constructorInitializer | .usingDirective
  | .classDeclaration | .constructorDeclaration | .parameterList | .directive => false
  | _ => true

/-- A node may have the children, inside the given nodes. -/
structure Holds (P : Promise) (around : List Opened) (n : Opened) (o : Outline) : Prop where
  admits : n.kind.Admits o
  inside : n.kind = .constructorInitializer → Opened.inConstructor around = true
  kept : n.kind.isPromised = true → P around n o

theorem Holds.plain {P : Promise} {around : List Opened} {n : Opened}
    (h : n.kind.isPlain = true) (o : Outline) : Holds P around n o := by
  obtain ⟨k, name⟩ := n
  cases k <;> first | exact absurd h Bool.false_ne_true | exact ⟨trivial, nofun, nofun⟩

theorem Holds.promised {P : Promise} {around : List Opened} {n : Opened} {o : Outline}
    (hn : n.kind.isPromised = true) (h : P around n o) : Holds P around n o := by
  obtain ⟨k, name⟩ := n
  cases k <;> first | exact absurd hn Bool.false_ne_true | exact ⟨trivial, nofun, fun _ => h⟩

/-- A node around a name. -/
theorem Holds.name {P : Promise} {around : List Opened} {k : NodeKind} {l : Lexeme}
    (hk : k = .identifierName ∨ k = .declarator) (hl : l.kind = .identifier) :
    Holds P around ⟨k, none⟩ (.token l .nil) := by
  rcases hk with rfl | rfl <;> exact ⟨⟨l, rfl, hl⟩, nofun, nofun⟩

namespace Outline

/-- The nodes have children that they may have, inside the given nodes. No parser ever notes a
missing `New`. -/
def Formed (P : Promise) (around : List Opened) : Outline → Prop
  | nil => True
  | token _ r => r.Formed P around
  | missing k r => k ≠ .newKeyword ∧ r.Formed P around
  | node k c r =>
    (∃ name, Holds P around ⟨k, name⟩ c ∧ c.Formed P (⟨k, name⟩ :: around)) ∧ r.Formed P around

variable {P : Promise} {x : List Opened}

theorem formed_append {o p : Outline} :
    (o ++ p).Formed P x ↔ o.Formed P x ∧ p.Formed P x := by
  induction o with
  | nil => exact ⟨fun h => ⟨trivial, h⟩, And.right⟩
  | token l r ih => exact ih
  | missing k r ih => rw [missing_append, Formed, Formed, ih, and_assoc]
  | node k c r _ ih => rw [node_append, Formed, Formed, ih, and_assoc]

theorem formed_node {n : Opened} {o : Outline} (hh : Holds P x n o)
    (hf : o.Formed P (n :: x)) : (node n.kind o .nil).Formed P x :=
  ⟨⟨n.name?, hh, hf⟩, trivial⟩

theorem append_nil (o : Outline) : o ++ nil = o := by
  induction o with
  | nil => rfl
  | token l r ih => rw [token_append, ih]
  | missing k r ih => rw [missing_append, ih]
  | node k c r _ ih => rw [node_append, ih]

theorem append_assoc (o p q : Outline) : o ++ p ++ q = o ++ (p ++ q) := by
  induction o with
  | nil => rfl
  | token l r ih => rw [token_append, token_append, token_append, ih]
  | missing k r ih => rw [missing_append, missing_append, missing_append, ih]
  | node k c r _ ih => rw [node_append, node_append, node_append, ih]

/-- No token at the top has the kind. -/
def Lacks (k : TokenKind) : Outline → Prop
  | nil => True
  | token l r => l.kind ≠ k ∧ r.Lacks k
  | missing m r => m ≠ k ∧ r.Lacks k
  | node _ _ r => r.Lacks k

theorem lacks_append {k : TokenKind} {o p : Outline} :
    (o ++ p).Lacks k ↔ o.Lacks k ∧ p.Lacks k := by
  induction o with
  | nil => exact ⟨fun h => ⟨trivial, h⟩, And.right⟩
  | token l r ih => rw [token_append, Lacks, Lacks, ih, and_assoc]
  | missing m r ih => rw [missing_append, Lacks, Lacks, ih, and_assoc]
  | node m c r _ ih => exact ih

/-- The number of tokens and nodes at the top. -/
def width : Outline → Nat
  | nil => 0
  | token _ r => r.width + 1
  | missing _ r => r.width + 1
  | node _ _ r => r.width + 1

theorem width_append (o p : Outline) : (o ++ p).width = o.width + p.width := by
  induction o with
  | nil => rw [nil_append, width, Nat.zero_add]
  | token l r ih => rw [token_append, width, width, ih, Nat.add_right_comm]
  | missing m r ih => rw [missing_append, width, width, ih, Nat.add_right_comm]
  | node m c r _ ih => rw [node_append, width, width, ih, Nat.add_right_comm]

/-! ## Outlines with open nodes -/

variable (o p : Outline) (ws : List (Opened × Outline))

/-- The events of an outline in nodes that are open. -/
def eventsIn (o : Outline) : List (Opened × Outline) → List Event
  | [] => o.events
  | w :: ws => w.2.eventsIn ws ++ .opened w.1.kind :: o.events

/-- The lexemes of an outline and of what stands before the nodes that are open. -/
def lexemesIn (o : Outline) : List (Opened × Outline) → List Lexeme
  | [] => o.lexemes
  | w :: ws => w.2.lexemesIn ws ++ o.lexemes

/-- An outline and what stands before the nodes that are open are well-formed inside the nodes `x`,
and whatever is added to the open nodes, they may hold it. -/
def FormedIn (P : Promise) (x : List Opened) (o : Outline) : List (Opened × Outline) → Prop
  | [] => o.Formed P x
  | w :: ws => w.2.FormedIn P x ws ∧ (∀ p, Holds P (ws.map (·.1) ++ x) w.1 (o ++ p)) ∧
      o.Formed P (w.1 :: (ws.map (·.1) ++ x))

theorem eventsIn_append : (o ++ p).eventsIn ws = o.eventsIn ws ++ p.events := by
  cases ws with
  | nil => exact events_append o p
  | cons w ws => rw [eventsIn, eventsIn, events_append]; simp

theorem lexemesIn_append : (o ++ p).lexemesIn ws = o.lexemesIn ws ++ p.lexemes := by
  cases ws with
  | nil => exact lexemes_append o p
  | cons w ws => rw [lexemesIn, lexemesIn, lexemes_append, List.append_assoc]

variable {o p ws}

theorem FormedIn.append (h : o.FormedIn P x ws) (hp : p.Formed P (ws.map (·.1) ++ x)) :
    (o ++ p).FormedIn P x ws := by
  cases ws with
  | nil => exact formed_append.2 ⟨h, hp⟩
  | cons w ws =>
      obtain ⟨hw, hh, ho⟩ := h
      exact ⟨hw, fun q => append_assoc o p q ▸ hh (p ++ q), formed_append.2 ⟨ho, hp⟩⟩

end Outline

/-! ## From one cursor to another -/

theorem Cursor.exists_ahead {c : Cursor} (h : c.kind 0 ≠ .endOfFile) :
    ∃ l rest, c.ahead = l :: rest ∧ l.kind = c.kind 0 := by
  unfold Cursor.kind at h ⊢
  cases ha : c.ahead with
  | nil =>
      rw [ha] at h
      exact absurd rfl h
  | cons l rest => exact ⟨l, rest, rfl, rfl⟩

theorem Cursor.ahead_of_sees {c : Cursor} {k : TokenKind} (h : c.sees k = true)
    (hk : k ≠ .endOfFile) : ∃ l rest, c.ahead = l :: rest ∧ l.kind = k := by
  obtain rfl : c.kind 0 = k := eq_of_beq h
  exact exists_ahead hk

theorem Cursor.exists_drop {c : Cursor} {n : Nat} (h : c.kind n ≠ .endOfFile) :
    ∃ l, c.ahead.drop n = l :: c.ahead.drop (n + 1) ∧ l.kind = c.kind n ∧ l.value = c.value n := by
  have hn := length_pos_of_kind_ne h
  refine ⟨c.ahead[n], List.drop_eq_getElem_cons hn, ?_, ?_⟩
  · rw [kind, List.getElem?_eq_getElem hn]
  · rw [value, List.getElem?_eq_getElem hn]

theorem Cursor.kind_bump (c : Cursor) (n : Nat) : c.bump.kind n = c.kind (n + 1) := by
  rw [kind, kind, ahead_bump, List.getElem?_tail]

/-- Between two cursors an outline is described. -/
structure Describes (c : Cursor) (o : Outline) (c' : Cursor) : Prop where
  events : c'.events.reverse = c.events.reverse ++ o.events
  ahead : o.lexemes ++ c'.ahead = c.ahead
  previous : c'.previous = o.lexemes.getLast?.or c.previous

namespace Describes

variable {c c' c'' : Cursor} {o p : Outline} {k : NodeKind}

theorem refl (c : Cursor) : Describes c .nil c :=
  ⟨(List.append_nil _).symm, rfl, rfl⟩

theorem trans (h : Describes c o c') (h' : Describes c' p c'') : Describes c (o ++ p) c'' where
  events := by rw [h'.events, h.events, Outline.events_append, List.append_assoc]
  ahead := by rw [Outline.lexemes_append, List.append_assoc, h'.ahead, h.ahead]
  previous := by
    rw [Outline.lexemes_append, List.getLast?_append, Option.or_assoc, h'.previous, h.previous]

theorem token {l : Lexeme} {rest : List Lexeme} (h : c.ahead = l :: rest) :
    Describes c (.token l .nil) c.bump where
  events := by
    rw [Cursor.bump, h]
    exact List.reverse_cons ..
  ahead := by
    rw [Cursor.bump, h]
    rfl
  previous := by
    rw [Cursor.bump, h]
    rfl

theorem missing (c : Cursor) (k : TokenKind) : Describes c (.missing k .nil) (c.missing k) where
  events := List.reverse_cons ..
  ahead := rfl
  previous := rfl

/-- What is described in a node that is opened and closed. -/
theorem node (h : Describes (c.openNode k) o c') : Describes c (.node k o .nil) c'.close where
  events := by
    show (Event.closed :: c'.events).reverse = _
    rw [List.reverse_cons, h.events]
    show (Event.opened k :: c.events).reverse ++ o.events ++ [.closed] = _
    simp [Outline.events]
  ahead := by
    rw [Outline.lexemes, Outline.lexemes, List.append_nil]
    exact h.ahead
  previous := by
    rw [Outline.lexemes, Outline.lexemes, List.append_nil]
    exact h.previous

end Describes

/-- Since a cursor an outline has been described in which the nodes `ns` are open, all of it inside
the nodes `x`. -/
def Grown (P : Promise) (x : List Opened) (c₀ : Cursor) (ns : List Opened) (c : Cursor) : Prop :=
  ∃ (ws : List (Opened × Outline)) (o : Outline), ws.map (·.1) = ns ∧
    c.events.reverse = c₀.events.reverse ++ o.eventsIn ws ∧
      o.lexemesIn ws ++ c.ahead = c₀.ahead ∧
      c.previous = (o.lexemesIn ws).getLast?.or c₀.previous ∧ o.FormedIn P x ws

namespace Grown

variable {P : Promise} {x : List Opened} {c₀ c c' : Cursor} {k : NodeKind} {n : Opened}
  {ns : List Opened} {o p : Outline}

theorem refl (c : Cursor) : Grown P x c [] c :=
  ⟨[], .nil, rfl, (List.append_nil _).symm, rfl, rfl, trivial⟩

theorem outline (h : Grown P x c₀ [] c) : ∃ o : Outline, Describes c₀ o c ∧ o.Formed P x := by
  obtain ⟨ws, o, hk, he, hl, hp, hf⟩ := h
  obtain rfl := List.map_eq_nil_iff.1 hk
  exact ⟨o, ⟨he, hl, hp⟩, hf⟩

/-! ## The moves -/

/-- What is described next is added to what stands in the innermost open node. -/
theorem add (h : Grown P x c₀ ns c) (hp : Describes c p c') (hf : p.Formed P (ns ++ x)) :
    Grown P x c₀ ns c' := by
  obtain ⟨ws, o, rfl, he, hl, hb, hf₀⟩ := h
  refine ⟨ws, o ++ p, rfl, ?_, ?_, ?_, hf₀.append hf⟩
  · rw [hp.events, he, Outline.eventsIn_append, List.append_assoc]
  · rw [Outline.lexemesIn_append, List.append_assoc, hp.ahead, hl]
  · rw [Outline.lexemesIn_append, List.getLast?_append, Option.or_assoc, hp.previous, hb]

/-- A node is opened and what it has to begin with is described. -/
theorem openWith (h : Grown P x c₀ ns c) (hp : Describes (c.openNode n.kind) p c')
    (hh : ∀ q, Holds P (ns ++ x) n (p ++ q)) (hf : p.Formed P (n :: (ns ++ x))) :
    Grown P x c₀ (n :: ns) c' := by
  obtain ⟨ws, o, rfl, he, hl, hb, hf₀⟩ := h
  refine ⟨(n, o) :: ws, p, rfl, ?_, ?_, ?_, hf₀, hh, hf⟩
  · rw [hp.events]
    show (Event.opened n.kind :: c.events).reverse ++ _ = _ ++ (o.eventsIn ws ++ _)
    rw [List.reverse_cons, he, List.append_assoc, List.append_assoc]
    rfl
  · show o.lexemesIn ws ++ p.lexemes ++ c'.ahead = c₀.ahead
    rw [List.append_assoc, hp.ahead, ← hl]
    rfl
  · show _ = (o.lexemesIn ws ++ p.lexemes).getLast?.or _
    rw [List.getLast?_append, Option.or_assoc, hp.previous, ← hb]
    rfl

theorem openNode (h : Grown P x c₀ ns c) (hh : ∀ q, Holds P (ns ++ x) n q) :
    Grown P x c₀ (n :: ns) (c.openNode n.kind) :=
  h.openWith (.refl _) hh trivial

theorem openPlain (h : Grown P x c₀ ns c) (hk : k.isPlain = true) :
    Grown P x c₀ (⟨k, none⟩ :: ns) (c.openNode k) :=
  h.openNode (n := ⟨k, none⟩) (Holds.plain hk)

theorem bump (h : Grown P x c₀ ns c) : Grown P x c₀ ns c.bump := by
  cases ha : c.ahead with
  | nil =>
      rw [Cursor.bump, ha]
      exact h
  | cons l rest => exact h.add (.token ha) trivial

theorem exists_bump (P : Promise) (x : List Opened) (c : Cursor) :
    ∃ o : Outline, Describes c o c.bump ∧ o.Formed P x :=
  (bump (refl c)).outline

theorem missing {k : TokenKind} (h : Grown P x c₀ ns c) (hk : k ≠ .newKeyword) :
    Grown P x c₀ ns (c.missing k) :=
  h.add (.missing c k) ⟨hk, trivial⟩

theorem close (h : Grown P x c₀ (n :: ns) c) : Grown P x c₀ ns c.close := by
  obtain ⟨ws, o, hw, he, hl, hp, hf⟩ := h
  obtain ⟨⟨n, b⟩, ws, rfl, rfl, rfl⟩ := List.map_eq_cons_iff.1 hw
  obtain ⟨hb, hh, ho⟩ := hf
  have hn := hh .nil
  rw [Outline.append_nil] at hn
  refine ⟨ws, b ++ .node n.kind o .nil, rfl, ?_, ?_, ?_, hb.append (Outline.formed_node hn ho)⟩
  · show (Event.closed :: c.events).reverse = _
    rw [List.reverse_cons, he, Outline.eventsIn_append]
    simp [Outline.eventsIn, Outline.events]
  · rw [Outline.lexemesIn_append, ← hl]
    simp [Outline.lexemesIn, Outline.lexemes, Cursor.close]
  · rw [Outline.lexemesIn_append, Outline.lexemes, Outline.lexemes, List.append_nil]
    exact hp

/-- Closing nodes from the inside. -/
theorem closeMany {m : Nat} (h : Grown P x c₀ ns c) (hm : m ≤ ns.length) :
    Grown P x c₀ (ns.drop m) (c.closeMany m) := by
  induction m generalizing c ns with
  | zero => exact h
  | succ m ih =>
      cases ns with
      | nil => cases hm
      | cons n ns => exact ih h.close (Nat.le_of_succ_le_succ hm)

/-- What is described in a node is added as a whole. -/
theorem addNode (h : Grown P x c₀ ns c) (hp : Describes (c.openNode n.kind) p c')
    (hh : Holds P (ns ++ x) n p) (hf : p.Formed P (n :: (ns ++ x))) :
    Grown P x c₀ ns c'.close :=
  h.add hp.node (Outline.formed_node hh hf)

/-- An initializer is added as a whole, in a constructor. -/
theorem initializer (h : Grown P x c₀ ns c)
    (hp : Describes (c.openNode .constructorInitializer) o c') (ho : o.IsCall)
    (hf : o.Formed P (⟨.constructorInitializer, none⟩ :: (ns ++ x)))
    (hk : Opened.inConstructor (ns ++ x) = true) : Grown P x c₀ ns c'.close :=
  h.addNode (n := ⟨.constructorInitializer, none⟩) hp ⟨ho, fun _ => hk, nofun⟩ hf

/-! ## Nodes around a name -/

theorem wrap (h : Grown P x c₀ ns c) (hs : c.sees .identifier = true)
    (hk : k = .identifierName ∨ k = .declarator) : Grown P x c₀ ns (c.wrap k) := by
  obtain ⟨l, rest, ha, hl⟩ := Cursor.ahead_of_sees hs (by decide)
  exact h.addNode (n := ⟨k, none⟩) (.token ha) (.name hk hl) trivial

end Grown

end Xref
