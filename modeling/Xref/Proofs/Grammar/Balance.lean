import Mathlib.Logic.Function.Iterate
import Xref.Proofs.Grammar.CSharp
import Xref.Proofs.Grammar.VisualBasic
import Xref.Proofs.Lexeme.Fresh

/-!
# What is open and what the parsers believe to be open

A parser keeps its own account of what is open, frames in C# and blocks in Visual Basic, next to the
nodes that its events have opened and not yet closed. Nothing but the parser's own care keeps the
two in step: a frame closes one node or two, an `End` line closes several blocks at once. `openNodes`
reads the open nodes off the events, and what the parsers have grown (`Grown`) tells their number.

A loop is its round taken some number of times (`Rounds`). At the head of each round as many nodes
are open as the frames or blocks close, and one more, the root; every round moves past a lexeme,
closes a frame or opens a statement that the next round moves on with; and at the end nothing is
ahead and only the root is open.
-/

namespace Xref

/-! ## Open nodes -/

/-- The nodes that events, the newest first, have opened in the root and not closed, innermost
first; `none` if they close what they have not opened. -/
def Event.openInRoot : List Event → Option (List NodeKind)
  | [] => some []
  | .opened k :: es => (openInRoot es).map (k :: ·)
  | .closed :: es =>
    match openInRoot es with
    | some (_ :: ks) => some ks
    | _ => none
  | .token _ :: es | .missing _ :: es => openInRoot es

/-- The nodes that are open, innermost first and the root last. -/
def Cursor.openNodes (c : Cursor) : Option (List NodeKind) :=
  (Event.openInRoot c.events).map (· ++ [.compilationUnit])

@[simp] theorem Cursor.openNodes_openNode (c : Cursor) (k : NodeKind) :
    (c.openNode k).openNodes = c.openNodes.map (k :: ·) := by
  simp only [openNodes, openNode, Event.openInRoot, Option.map_map]
  rfl

/-- What an outline opens it closes. -/
theorem Event.openInRoot_outline (o : Outline) (es : List Event) :
    openInRoot (o.events.reverse ++ es) = openInRoot es := by
  induction o generalizing es with
  | nil => rfl
  | token l r ih =>
      rw [Outline.events, List.reverse_cons, List.append_assoc, ih]
      rfl
  | missing k r ih =>
      rw [Outline.events, List.reverse_cons, List.append_assoc, ih]
      rfl
  | node k c r ihc ihr =>
      have hc := ihc (.opened k :: es)
      have he : (Outline.node k c r).events.reverse ++ es =
          r.events.reverse ++ (.closed :: (c.events.reverse ++ .opened k :: es)) := by
        simp [Outline.events]
      rw [he, ihr, openInRoot, hc, openInRoot]
      cases openInRoot es <;> rfl

theorem Event.openInRoot_eventsIn (o : Outline) (ws : List (Opened × Outline)) (es : List Event) :
    openInRoot ((o.eventsIn ws).reverse ++ es) =
      (openInRoot es).map (ws.map (·.1.kind) ++ ·) := by
  induction ws generalizing o with
  | nil =>
      rw [Outline.eventsIn, openInRoot_outline]
      cases openInRoot es <;> rfl
  | cons w ws ih =>
      have he : (o.eventsIn (w :: ws)).reverse ++ es =
          o.events.reverse ++ (.opened w.1.kind :: ((w.2.eventsIn ws).reverse ++ es)) := by
        simp [Outline.eventsIn]
      rw [he, openInRoot_outline, openInRoot, ih]
      cases openInRoot es <;> rfl

/-- What has grown from the first lexeme on has its open nodes open in the root. -/
theorem Grown.openNodes {P : Promise} {x : List Opened} {ls : List Lexeme} {ns : List Opened}
    {c : Cursor} (h : Grown P x (.ofLexemes ls) ns c) :
    c.openNodes = some (ns.map Opened.kind ++ [.compilationUnit]) := by
  obtain ⟨ws, o, rfl, he, -⟩ := h
  have he : c.events = (o.eventsIn ws).reverse ++ [] := by
    rw [List.append_nil, ← List.reverse_reverse c.events, he]
    rfl
  rw [Cursor.openNodes, he, Event.openInRoot_eventsIn]
  simp [Event.openInRoot]

/-! ## Rounds -/

section

variable {σ : Type}

/-- The round `f`, taken some number of times, leads from `s` to `t`. What it passes through, the
ends included, is `I`, and each time it is taken it does `A`. -/
def Rounds (f : σ → σ) (I : σ → Prop) (A : σ → σ → Prop) (s t : σ) : Prop :=
  ∃ n, t = f^[n] s ∧ (∀ i ≤ n, I (f^[i] s)) ∧ ∀ i < n, A (f^[i] s) (f^[i + 1] s)

variable {f : σ → σ} {I J : σ → Prop} {A : σ → σ → Prop} {s t : σ}

theorem Rounds.refl (h : I s) : Rounds f I A s s :=
  ⟨0, rfl, fun i hi => by rwa [Nat.le_zero.1 hi], nofun⟩

theorem Rounds.head (h : Rounds f I A (f s) t) (hi : I s) (ha : A s (f s)) : Rounds f I A s t := by
  obtain ⟨n, ht, hn, hr⟩ := h
  refine ⟨n + 1, ht, fun i hin => ?_, fun i hin => ?_⟩
  · cases i with
    | zero => exact hi
    | succ i => exact hn i (Nat.le_of_succ_le_succ hin)
  · cases i with
    | zero => exact ha
    | succ i => exact hr i (Nat.lt_of_succ_lt_succ hin)

theorem Rounds.mono (h : Rounds f I A s t) (hij : ∀ s, I s → J s) : Rounds f J A s t := by
  obtain ⟨n, ht, hn, hr⟩ := h
  exact ⟨n, ht, fun i hi => hij _ (hn i hi), hr⟩

/-- A loop takes its round until its condition holds. -/
theorem rounds_repeatUntil {m : σ → Nat} {p : σ → Bool} {lt : ∀ s, p s = false → m (f s) < m s}
    (h₀ : I s) (hi : ∀ s, p s = false → I s → I (f s)) (ha : ∀ s, p s = false → A s (f s)) :
    Rounds f I A s (repeatUntil m p f lt s) := by
  induction s using repeatUntil.induct m p f lt with
  | case1 s h =>
      rw [repeatUntil, dif_pos h]
      exact .refl h₀
  | case2 s h ih =>
      have hp : p s = false := by simpa using h
      rw [repeatUntil, dif_neg h]
      exact (ih (hi s hp h₀)).head h₀ (ha s hp)

end

/-! ## C# -/

namespace CSharp

/-- The number of nodes that close with the frames. -/
def nodeCount : List OpenFrame → Nat
  | [] => 0
  | f :: fs => f.nodes + nodeCount fs

theorem length_of_fits {fs : List OpenFrame} {ns : List Opened} (h : Fits fs ns) :
    ns.length = nodeCount fs := by
  induction fs generalizing ns with
  | nil =>
      obtain rfl : ns = [] := h
      rfl
  | cons f fs ih =>
      obtain ⟨hn, -, hf⟩ := h
      have hr := ih hf
      rw [List.length_drop] at hr
      rw [nodeCount, ← hr]
      omega

/-- As many nodes are open as close with the frames, and the root. -/
def State.Balanced (s : State) : Prop :=
  s.cursor.openNodes.map List.length = some (1 + nodeCount s.frames)

theorem State.Grown.balanced {s : State} {ls : List Lexeme} (h : Grown (.ofLexemes ls) s) :
    s.Balanced := by
  obtain ⟨ns, hg, hf⟩ := h
  rw [Balanced, hg.openNodes, ← length_of_fits hf]
  simp [Nat.add_comm]

/-- The parser before the first lexeme. -/
def State.ofLexemes (ls : List Lexeme) : State :=
  ⟨.ofLexemes ls, []⟩

/-- From the first lexeme on the frames are in step with the open nodes, every round advances, and
at the end nothing is ahead and only the root is open. -/
structure StaysBalanced (q : LexemeSeq) : Prop where
  rounds : Rounds State.step State.Balanced State.Advances
    (.ofLexemes q.lexemes) (State.run (.ofLexemes q.lexemes))
  ahead : (State.run (.ofLexemes q.lexemes)).cursor.ahead = []
  openNodes : (State.run (.ofLexemes q.lexemes)).cursor.openNodes = some [.compilationUnit]

theorem staysBalanced {q : LexemeSeq} (he : ∀ l ∈ q.lexemes, l.kind ≠ .endOfFile) :
    StaysBalanced q := by
  have h₀ : State.Grown (.ofLexemes q.lexemes) (.ofLexemes q.lexemes) :=
    .intro (Grown.refl _) rfl
  obtain ⟨hg, ha⟩ := h₀.run.done (stop_repeatUntil _) he
  refine ⟨?_, ha, hg.openNodes⟩
  have hr : Rounds State.step (State.Grown (.ofLexemes q.lexemes)) State.Advances
      (.ofLexemes q.lexemes) (State.run (.ofLexemes q.lexemes)) :=
    rounds_repeatUntil h₀ (fun _ _ h => h.step) fun _ hd => advances_step hd
  exact hr.mono fun _ h => h.balanced

end CSharp

/-! ## Visual Basic -/

namespace VisualBasic

/-- As many nodes are open as there are blocks, and the root. -/
def State.Balanced (s : State) : Prop :=
  s.cursor.openNodes.map List.length = some (1 + s.blocks.length)

theorem State.Grown.balanced {s : State} {ls : List Lexeme} (h : Grown (.ofLexemes ls) [] s) :
    s.Balanced := by
  rw [Balanced, Xref.Grown.openNodes h]
  simp [Nat.add_comm]

/-- A line moves past a lexeme. -/
def State.Advances (s s' : State) : Prop :=
  s'.cursor.ahead.length < s.cursor.ahead.length

/-- The parser before the first lexeme. -/
def State.ofLexemes (ls : List Lexeme) : State :=
  ⟨.ofLexemes ls, [], false⟩

/-- From the first lexeme on the blocks are in step with the open nodes, every line advances, and
at the end nothing is ahead and closing the blocks leaves only the root open. -/
structure StaysBalanced (q : LexemeSeq) : Prop where
  rounds : Rounds State.moveLine State.Balanced State.Advances
    (.ofLexemes q.lexemes) (State.run (.ofLexemes q.lexemes))
  ahead : (State.run (.ofLexemes q.lexemes)).cursor.ahead = []
  openNodes : ((State.run (.ofLexemes q.lexemes)).cursor.closeMany
    (State.run (.ofLexemes q.lexemes)).blocks.length).openNodes = some [.compilationUnit]

theorem staysBalanced (q : LexemeSeq) : StaysBalanced q := by
  have h₀ : State.Grown (.ofLexemes q.lexemes) [] (.ofLexemes q.lexemes) :=
    Grown.refl _
  refine ⟨?_, ?_, ?_⟩
  · have hr : Rounds State.moveLine (State.Grown (.ofLexemes q.lexemes) []) State.Advances
        (.ofLexemes q.lexemes) (State.run (.ofLexemes q.lexemes)) :=
      rounds_repeatUntil h₀ (fun _ _ h => h.moveLine) fun s hs => State.length_moveLine_lt s hs
    exact hr.mono fun _ h => h.balanced
  · exact Cursor.atEnd_iff.1 (stop_repeatUntil (p := fun s : State => s.cursor.atEnd) _)
  · have hc := Xref.Grown.closeMany h₀.run (m := (State.run (.ofLexemes q.lexemes)).blocks.length)
      (by simp)
    rw [List.nil_append, List.drop_eq_nil_of_le (by simp)] at hc
    exact hc.openNodes

end VisualBasic

/-- What the parser of a language believes to be open is open, in every text. -/
def StaysBalanced (l : Language) (s : Text) : Prop :=
  match l with
  | .csharp => CSharp.StaysBalanced (LexemeSeq.ofText .csharp s)
  | .visualBasic => VisualBasic.StaysBalanced (LexemeSeq.ofText .visualBasic s)

theorem staysBalanced_ofText (l : Language) (s : Text) : StaysBalanced l s := by
  cases l with
  | csharp => exact CSharp.staysBalanced LexemeSeq.kind_ne_of_mem_scan
  | visualBasic => exact VisualBasic.staysBalanced _

/-- A round need neither move past a lexeme nor close a frame: before a name, the first one opens
a statement and moves nothing of it. -/
theorem opens_before_moving :
    ∃ s, s = CSharp.State.ofLexemes (LexemeSeq.ofText .csharp ['x']).lexemes ∧ s.isDone = false ∧
      ¬ s.step.cursor.ahead.length < s.cursor.ahead.length ∧
      ¬ s.step.frames.length < s.frames.length :=
  ⟨_, rfl, by decide +kernel⟩

end Xref
