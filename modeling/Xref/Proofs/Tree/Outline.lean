import Xref.Tree.Event

/-!
# Outlines

An outline is what a parser means to describe: tokens and nodes in document order, before anything
has a place or a number. Its events are those of a walk around it, so an event sequence comes from
an outline exactly when every node it opens is closed again and it closes nothing else.

`Forest.ofMarks` never asks for that. It reads marks from the right and drops what has no node to
go to, which is convenient for a total function and useless for a proof. For the events of an
outline nothing is dropped: the forest they describe is the outline laid out from the tally they
start at (`Forest.ofMarks_events`). Everything proved about trees is proved about laid out outlines,
by recursion over the outline.
-/

namespace Xref

/-- Tokens, missing tokens and nodes in document order, without places. -/
inductive Outline
  | nil
  | token (l : Lexeme) (rest : Outline)
  | missing (k : TokenKind) (rest : Outline)
  | node (k : NodeKind) (children rest : Outline)

namespace Outline

/-- One outline behind another. -/
def append : Outline → Outline → Outline
  | nil, p => p
  | token l r, p => token l (r.append p)
  | missing k r, p => missing k (r.append p)
  | node k c r, p => node k c (r.append p)

instance : Append Outline := ⟨append⟩

@[simp] theorem nil_append (p : Outline) : nil ++ p = p := rfl

@[simp] theorem token_append (l : Lexeme) (r p : Outline) :
    token l r ++ p = token l (r ++ p) := rfl

@[simp] theorem missing_append (k : TokenKind) (r p : Outline) :
    missing k r ++ p = missing k (r ++ p) := rfl

@[simp] theorem node_append (k : NodeKind) (c r p : Outline) :
    node k c r ++ p = node k c (r ++ p) := rfl

/-- The events of a walk around an outline. -/
def events : Outline → List Event
  | nil => []
  | token l r => .token l :: r.events
  | missing k r => .missing k :: r.events
  | node k c r => .opened k :: (c.events ++ .closed :: r.events)

@[simp] theorem events_append (o p : Outline) : (o ++ p).events = o.events ++ p.events := by
  induction o with
  | nil => rfl
  | token l r ih => rw [token_append, events, ih]; rfl
  | missing k r ih => rw [missing_append, events, ih]; rfl
  | node k c r _ ih => rw [node_append, events, ih]; simp [events]

/-- The lexemes of the tokens that are not missing. -/
def lexemes : Outline → List Lexeme
  | nil => []
  | token l r => l :: r.lexemes
  | missing _ r => r.lexemes
  | node _ c r => c.lexemes ++ r.lexemes

@[simp] theorem lexemes_append (o p : Outline) :
    (o ++ p).lexemes = o.lexemes ++ p.lexemes := by
  induction o with
  | nil => rfl
  | token l r ih => rw [token_append, lexemes, ih]; rfl
  | missing k r ih => rw [missing_append, lexemes, ih]; rfl
  | node k c r _ ih => rw [node_append, lexemes, ih]; simp [lexemes]

/-! ## Laying out -/

/-- The tally once a node is open. -/
def afterOpen (n : Tally) : Tally :=
  { n with nodes := n.nodes + 1 }

/-- The tally behind an outline. -/
def after (n : Tally) : Outline → Tally
  | nil => n
  | token l r => r.after (n.afterToken l)
  | missing k r => r.after (n.afterToken (.absent k))
  | node _ c r => r.after (c.after (afterOpen n))

/-- An outline in its place, in front of a forest. -/
def placeBefore (tail : Forest) (n : Tally) : Outline → Forest
  | nil => tail
  | token l r => .token (n.token l false) (r.placeBefore tail (n.afterToken l))
  | missing k r =>
    .token (n.token (.absent k) true) (r.placeBefore tail (n.afterToken (.absent k)))
  | node k c r =>
    .node ⟨n.nodes, k, n.offset⟩ (c.placeBefore .nil (afterOpen n))
      (r.placeBefore tail (c.after (afterOpen n)))

/-- An outline in its place. -/
def place (n : Tally) (o : Outline) : Forest :=
  o.placeBefore .nil n

@[simp] theorem place_nil (n : Tally) : nil.place n = .nil := rfl

@[simp] theorem place_token (n : Tally) (l : Lexeme) (r : Outline) :
    (token l r).place n = .token (n.token l false) (r.place (n.afterToken l)) := rfl

@[simp] theorem place_missing (n : Tally) (k : TokenKind) (r : Outline) :
    (missing k r).place n =
      .token (n.token (.absent k) true) (r.place (n.afterToken (.absent k))) := rfl

@[simp] theorem place_node (n : Tally) (k : NodeKind) (c r : Outline) :
    (node k c r).place n =
      .node ⟨n.nodes, k, n.offset⟩ (c.place (afterOpen n)) (r.place (c.after (afterOpen n))) :=
  rfl

/-- The events of an outline put it in front of the innermost forest that the events behind them
leave, and leave the others as they are. -/
theorem foldr_attach_events (o : Outline) (n : Tally) (es : List Event) {f : Forest}
    {fs : List Forest}
    (h : (Mark.ofEvents (o.after n) es).foldr Mark.attach [.nil] = f :: fs) :
    (Mark.ofEvents n (o.events ++ es)).foldr Mark.attach [.nil] = o.placeBefore f n :: fs := by
  induction o generalizing n es f fs with
  | nil => exact h
  | token l r ih =>
      show Mark.attach _ ((Mark.ofEvents (n.afterToken l) (r.events ++ es)).foldr _ _) = _
      rw [ih _ _ h]
      rfl
  | missing k r ih =>
      show Mark.attach _
        ((Mark.ofEvents (n.afterToken (.absent k)) (r.events ++ es)).foldr _ _) = _
      rw [ih _ _ h]
      rfl
  | node k c r ihc ihr =>
      have hr : (Mark.ofEvents (c.after (afterOpen n)) (.closed :: (r.events ++ es))).foldr
          Mark.attach [.nil] = .nil :: r.placeBefore f (c.after (afterOpen n)) :: fs := by
        show Mark.attach .closed ((Mark.ofEvents _ (r.events ++ es)).foldr _ _) = _
        rw [ihr _ _ h]
        rfl
      have hc := ihc (afterOpen n) (.closed :: (r.events ++ es)) hr
      show Mark.attach _ ((Mark.ofEvents (afterOpen n)
        (c.events ++ .closed :: r.events ++ es)).foldr _ _) = _
      rw [List.append_assoc, List.cons_append, hc]
      rfl

end Outline

/-- The forest that the events of an outline describe is the outline in its place. -/
theorem Forest.ofMarks_events (o : Outline) (n : Tally) :
    Forest.ofMarks (Mark.ofEvents n o.events) = o.place n := by
  have h₀ : (Mark.ofEvents (o.after n) []).foldr Mark.attach [.nil] = .nil :: [] := rfl
  have h := o.foldr_attach_events n [] h₀
  rw [List.append_nil] at h
  rw [Forest.ofMarks, h]
  rfl

end Xref
