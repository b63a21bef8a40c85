import Xref.Grammar.Cursor
import Xref.Lexeme.Sequence

/-!
# The grammar of C#

The grammar is shallow: it tells imports, namespaces, types, constructors with their initializers,
declared names from referring ones, blocks and statements, and leaves everything else as a flat
run of tokens. It never fails. What it cannot place stays where it is found, and marks that are
absent are noted as missing.

What is open is a list of frames, the innermost first, each with the number of nodes that close
with it. A round of the parser looks at the innermost frame and moves at least one lexeme, closes a
frame, or opens the frame of a statement whose first lexeme the next round moves (`step_size_lt`).
So the parser ends, and it ends with nothing ahead and no frame open. The compilation unit is not
among the frames: it is what is open when they are none.
-/

namespace Xref.CSharp

open Cursor

/-- What is open. -/
inductive Frame
  | namespace
  | type (name : Text)
  | block
  /-- A statement with the depth of its parentheses; `afterBlock` when it has just had a block. -/
  | statement (depth : Nat) (afterBlock : Bool)
  deriving DecidableEq

/-- A frame and the number of nodes that close with it. -/
structure OpenFrame where
  frame : Frame
  nodes : Nat
  deriving DecidableEq

/-- A parser between two rounds. -/
structure State where
  cursor : Cursor
  frames : List OpenFrame

/-! ## Names -/

/-- Words that never name a type, so that a name after them is not a declared one. -/
def nonTypeWords : List String :=
  ["await", "yield", "nameof", "async", "when", "from", "select", "where"]

/-- The last lexeme may end the name of a type. -/
def followsType (c : Cursor) : Bool :=
  match c.previous with
  | none => false
  | some l =>
    match l.kind with
    | .identifier => !nonTypeWords.contains (String.ofList l.value)
    | .predefinedTypeKeyword | .closeBracket => true
    | .operator => l.value == ['?']
    | _ => false

/-- The name ahead is declared here: it follows a type, and what follows it fits a declaration. -/
def declares (c : Cursor) : Bool :=
  followsType c &&
    match c.kind 1 with
    | .equals | .semicolon | .comma | .closeParen | .openParen | .openBrace | .arrow
    | .endOfFile => true
    | .keyword => c.valueIs 1 "in"
    | _ => false

/-- Moves the name ahead into a node that tells whether it is declared or refers. -/
def moveName (c : Cursor) : Cursor :=
  c.wrap (if declares c then .declarator else .identifierName)

/-- Moves the next lexeme; a name gets a node. -/
def moveToken (c : Cursor) : Cursor :=
  if c.sees .identifier then moveName c else c.bump

/-- Moves the next `n` lexemes. -/
def moveTokens (c : Cursor) : Nat → Cursor
  | 0 => c
  | n + 1 => moveTokens (moveToken c) n

@[simp] theorem ahead_moveName (c : Cursor) : (moveName c).ahead = c.ahead.tail := by
  simp [moveName]

@[simp] theorem ahead_moveToken (c : Cursor) : (moveToken c).ahead = c.ahead.tail := by
  unfold moveToken
  split <;> simp

@[simp] theorem ahead_moveTokens (c : Cursor) (n : Nat) :
    (moveTokens c n).ahead = c.ahead.drop n := by
  induction n generalizing c with
  | zero => rfl
  | succ n ih => simp [moveTokens, ih, List.drop_tail]

/-! ## Runs up to a mark -/

/-- Moves lexemes until one has a kind among `stops`; the end of the text stops every run. -/
def moveUntil (stops : List TokenKind) (move : Cursor → Cursor)
    (h : ∀ c, (move c).ahead = c.ahead.tail) (c : Cursor) : Cursor :=
  repeatUntil (fun c => c.ahead.length) (fun c => c.sees .endOfFile || stops.contains (c.kind 0))
    move
    (fun c hc => by
      simp only [Bool.or_eq_false_iff, sees, beq_eq_false_iff_ne, ne_eq] at hc
      have := length_pos_of_kind_ne hc.1
      simp only [h, List.length_tail]
      omega)
    c

theorem length_moveUntil_le {k : List TokenKind} {move : Cursor → Cursor}
    {h : ∀ c, (move c).ahead = c.ahead.tail} (c : Cursor) :
    (moveUntil k move h c).ahead.length ≤ c.ahead.length :=
  size_repeatUntil_le (m := fun c : Cursor => c.ahead.length) c

/-- Moves the next lexeme; a name refers. -/
def moveReference (c : Cursor) : Cursor :=
  if c.sees .identifier then c.wrap .identifierName else c.bump

@[simp] theorem ahead_moveReference (c : Cursor) : (moveReference c).ahead = c.ahead.tail := by
  unfold moveReference
  split <;> simp

/-! ## Parenthesized lists -/

/-- The content of a list up to its closing parenthesis, with the depth of those inside. -/
def moveListItems (c : Cursor) : Cursor :=
  (repeatUntil (fun s : Cursor × Nat => s.1.ahead.length)
    (fun s =>
      match s.1.kind 0 with
      | .closeParen => s.2 == 0
      | .endOfFile | .openBrace | .closeBrace | .semicolon => true
      | _ => false)
    (fun s =>
      match s.1.kind 0 with
      | .closeParen => (s.1.bump, s.2 - 1)
      | .openParen => (s.1.bump, s.2 + 1)
      | _ => (moveToken s.1, s.2))
    (fun s hs => by
      have : s.1.kind 0 ≠ .endOfFile := by
        intro h
        simp [h] at hs
      have := length_pos_of_kind_ne this
      split <;> simp <;> omega)
    (c, 0)).1

theorem length_moveListItems_le (c : Cursor) :
    (moveListItems c).ahead.length ≤ c.ahead.length :=
  size_repeatUntil_le (m := fun s : Cursor × Nat => s.1.ahead.length) (c, 0)

/-- A parenthesized list; without an opening parenthesis, an empty list of missing ones. -/
def moveList (c : Cursor) (k : NodeKind) : Cursor :=
  let c := c.openNode k
  if c.sees .openParen then ((moveListItems c.bump).expect .closeParen).close
  else ((c.missing .openParen).missing .closeParen).close

theorem length_moveList_le (c : Cursor) (k : NodeKind) :
    (moveList c k).ahead.length ≤ c.ahead.length := by
  unfold moveList
  simp only
  split
  · have h1 := length_ahead_expect_le (moveListItems (c.openNode k).bump) .closeParen
    have h2 := length_moveListItems_le (c.openNode k).bump
    simp at h1 h2 ⊢
    omega
  · simp

/-! ## The head of an item -/

/-- Reserved words that modify a declaration. -/
def modifierKeywords : List String :=
  [ "public", "private", "protected", "internal", "static", "abstract", "sealed", "virtual",
    "override", "readonly", "extern", "unsafe", "volatile", "new" ]

/-- Names that modify a declaration when another word follows. -/
def modifierNames : List String :=
  ["partial", "async", "required", "file"]

/-- The lexeme modifies the declaration that `next` goes on with. -/
def isModifier (l : Lexeme) (next : TokenKind) : Bool :=
  match l.kind with
  | .keyword | .newKeyword => modifierKeywords.contains (String.ofList l.value)
  | .identifier =>
    (modifierNames.contains (String.ofList l.value) &&
      (next == .identifier || next == .keyword || next == .typeKeyword ||
        next == .predefinedTypeKeyword)) ||
    (String.ofList l.value == "global" && next == .usingKeyword)
  | _ => false

/-- The kind of the first lexeme. -/
def firstKind (ls : List Lexeme) : TokenKind :=
  match ls with
  | [] => .endOfFile
  | l :: _ => l.kind

/-- The number of lexemes that make up attributes and modifiers, inside `depth` brackets. -/
def headLength (depth : Nat) : List Lexeme → Nat
  | [] => 0
  | l :: ls =>
    match depth with
    | 0 =>
      if l.kind = .openBracket then 1 + headLength 1 ls
      else if isModifier l (firstKind ls) then 1 + headLength 0 ls
      else 0
    | d + 1 =>
      match l.kind with
      | .openBracket => 1 + headLength (d + 2) ls
      | .closeBracket => 1 + headLength d ls
      | _ => 1 + headLength (d + 1) ls

/-- What an item is. -/
inductive Item
  | using
  | namespace
  | type
  | constructor
  | member
  | statement
  deriving DecidableEq

/-- The name of the type whose members the innermost frame holds. -/
def typeName? : List OpenFrame → Option Text
  | ⟨.type name, _⟩ :: _ => some name
  | _ => none

/-- The innermost frame is a block. -/
def inBlock : List OpenFrame → Bool
  | ⟨.block, _⟩ :: _ => true
  | _ => false

/-- What the item is whose head has `n` lexemes. -/
def classify (fs : List OpenFrame) (c : Cursor) (n : Nat) : Item :=
  let other := if (typeName? fs).isSome then .member else .statement
  let next := c.kind (n + 1)
  match c.kind n with
  | .usingKeyword => if !inBlock fs && next != .openParen then .using else other
  | .namespaceKeyword => .namespace
  | .typeKeyword => .type
  | .identifier =>
    if c.valueIs n "record" && (next == .identifier || next == .typeKeyword) then .type
    else if next == .openParen && typeName? fs == some (c.value n) then .constructor
    else other
  | _ => other

/-! ## Closing frames -/

/-- Tells the innermost frame, if it is a statement, that it has just had a block. -/
def markAfterBlock : List OpenFrame → List OpenFrame
  | ⟨.statement d _, n⟩ :: fs => ⟨.statement d true, n⟩ :: fs
  | fs => fs

/-- Closes the innermost frame and its nodes. -/
def State.closeFrame (s : State) : State :=
  match s.frames with
  | [] => s
  | f :: fs =>
    { cursor := s.cursor.closeMany f.nodes,
      frames := if f.frame = .block then markAfterBlock fs else fs }

/-! ## Items -/

/-- `using [static] [Alias =] Name;` -/
def moveUsing (c : Cursor) (n : Nat) : Cursor :=
  let c := (moveTokens (c.openNode .usingDirective) n).bump
  let c := if c.sees .keyword && c.valueIs 0 "static" then c.bump else c
  let c :=
    if c.sees .identifier && c.kind 1 == .equals then
      (((c.openNode .nameEquals).bump).bump).close
    else if c.sees .equals then
      (((c.openNode .nameEquals).missing .identifier).bump).close
    else c
  let c := moveUntil
    [.semicolon, .closeBrace, .openBrace, .usingKeyword, .namespaceKeyword, .typeKeyword]
    moveReference ahead_moveReference c
  (c.expect .semicolon).close

/-- `namespace A.B` and an opening brace, which opens a frame, or a semicolon. -/
def State.moveNamespace (s : State) (n : Nat) : State :=
  let c := (moveTokens (s.cursor.openNode .namespaceDeclaration) n).bump
  let c := moveUntil [.openBrace, .semicolon, .closeBrace] moveReference ahead_moveReference c
  if c.sees .openBrace then ⟨c.bump, ⟨.namespace, 1⟩ :: s.frames⟩
  else if c.sees .semicolon then ⟨c.bump.close, s.frames⟩
  else ⟨c.close, s.frames⟩

/-- The head of a type up to its name: `class`, `record`, `record struct` and their like. -/
def moveTypeWord (c : Cursor) (n : Nat) : Cursor :=
  let c := moveTokens (c.openNode .classDeclaration) n
  if c.sees .identifier && c.bump.sees .typeKeyword then c.bump.bump else c.bump

/-- `class C : Base` and its like, up to an opening brace, which opens a frame, or a semicolon. -/
def State.moveType (s : State) (n : Nat) : State :=
  let c := moveTypeWord s.cursor n
  let name := if c.sees .identifier then c.value 0 else []
  let c := c.expect .identifier
  let c := moveUntil [.openBrace, .semicolon, .closeBrace] moveToken ahead_moveToken c
  if c.sees .openBrace then ⟨c.bump, ⟨.type name, 1⟩ :: s.frames⟩
  else if c.sees .semicolon then ⟨c.bump.close, s.frames⟩
  else ⟨c.close, s.frames⟩

/-- `: this(…)` or `: base(…)`, if the next lexeme is a colon. -/
def moveInitializer (c : Cursor) : Cursor :=
  if c.sees .colon then
    let c := (c.openNode .constructorInitializer).bump
    let c := if c.sees .thisKeyword || c.sees .baseKeyword then c.bump else c.missing .thisKeyword
    (moveList c .argumentList).close
  else c

/-- `C(…)` with its initializer, and what begins its body. -/
def State.moveConstructor (s : State) (n : Nat) : State :=
  let c := (moveTokens (s.cursor.openNode .constructorDeclaration) n).bump
  let c := moveInitializer (moveList c .parameterList)
  match c.kind 0 with
  | .openBrace => ⟨(c.openNode .block).bump, ⟨.block, 2⟩ :: s.frames⟩
  | .semicolon => ⟨c.bump.close, s.frames⟩
  | .endOfFile | .closeBrace => ⟨c.close, s.frames⟩
  | _ => ⟨c.openNode .statement, ⟨.statement 0 false, 2⟩ :: s.frames⟩

/-! ## Statements -/

/-- Lexemes with which a statement goes on after a block. -/
def continuesAfterBlock (k : TokenKind) : Bool :=
  k == .semicolon || k == .dot || k == .equals || k == .comma || k == .closeParen || k == .arrow

/-- Moves one lexeme of the statement that is the innermost frame, over the frames `fs`, or
closes it. -/
def stepStatement (c : Cursor) (depth : Nat) (nodes : Nat) (fs : List OpenFrame) : State :=
  let go (c : Cursor) (d : Nat) : State := ⟨c, ⟨.statement d false, nodes⟩ :: fs⟩
  match c.kind 0 with
  | .endOfFile | .closeBrace => ⟨c.closeMany nodes, fs⟩
  | .semicolon => if depth = 0 then ⟨c.bump.closeMany nodes, fs⟩ else go c.bump depth
  | .openBrace =>
    ⟨(c.openNode .block).bump, ⟨.block, 1⟩ :: ⟨.statement depth false, nodes⟩ :: fs⟩
  | .openParen => go c.bump (depth + 1)
  | .closeParen => go c.bump (depth - 1)
  | .identifier =>
    let d := moveName c
    if declares c && depth == 0 && d.sees .openParen then go (moveList d .parameterList) depth
    else go d depth
  | _ => go c.bump depth

/-- Opens a statement or member, with a node of the kind, and moves nothing of it. -/
def State.openStatement (s : State) (k : NodeKind) : State :=
  ⟨s.cursor.openNode k, ⟨.statement 0 false, 1⟩ :: s.frames⟩

/-- Moves a declaration, or opens a statement or member. -/
def State.moveItem (s : State) : State :=
  let n := headLength 0 s.cursor.ahead
  match classify s.frames s.cursor n with
  | .using => ⟨moveUsing s.cursor n, s.frames⟩
  | .namespace => s.moveNamespace n
  | .type => s.moveType n
  | .constructor => s.moveConstructor n
  | .member => s.openStatement .memberDeclaration
  | .statement => s.openStatement .statement

/-! ## Rounds -/

/-- Nothing is ahead and nothing is open. -/
def State.isDone (s : State) : Bool :=
  s.frames.isEmpty && s.cursor.sees .endOfFile

/-- One round of the parser. -/
def State.step (s : State) : State :=
  match s.frames with
  | [] => if s.cursor.sees .closeBrace then { s with cursor := s.cursor.bump } else s.moveItem
  | ⟨.statement depth afterBlock, nodes⟩ :: fs =>
    if afterBlock && !continuesAfterBlock (s.cursor.kind 0) then s.closeFrame
    else stepStatement s.cursor depth nodes fs
  | _ :: _ =>
    match s.cursor.kind 0 with
    | .endOfFile => { s with cursor := s.cursor.missing .closeBrace }.closeFrame
    | .closeBrace => { s with cursor := s.cursor.bump }.closeFrame
    | _ => s.moveItem

/-- What a round does: it moves past a lexeme and opens at most one frame, or closes a frame, or
opens a statement or member of which the next round moves past the first lexeme. -/
inductive State.Advances (s : State) : State → Prop
  | moves {s' : State} (ahead : s'.cursor.ahead.length < s.cursor.ahead.length)
    (frames : s'.frames.length ≤ s.frames.length + 1) : Advances s s'
  | closes {s' : State} (ahead : s'.cursor.ahead = s.cursor.ahead)
    (frames : s'.frames.length < s.frames.length) : Advances s s'
  | opens (k : NodeKind)
    (next : (s.openStatement k).step.cursor.ahead.length < s.cursor.ahead.length) :
    Advances s (s.openStatement k)

/-- What a round lowers. A lexeme counts for more than the frame that opens with it and a round
that moves none, and such a round for more than the frame that it opens. -/
def State.size (s : State) : Nat :=
  4 * s.cursor.ahead.length + s.frames.length +
    if s.step.cursor.ahead.length < s.cursor.ahead.length then 0 else 2

/-! ## Every round makes progress -/

theorem length_markAfterBlock (fs : List OpenFrame) : (markAfterBlock fs).length = fs.length := by
  unfold markAfterBlock
  split <;> simp

@[simp] theorem ahead_closeFrame (s : State) : s.closeFrame.cursor.ahead = s.cursor.ahead := by
  unfold State.closeFrame
  split <;> simp

theorem length_frames_closeFrame {s : State} (h : s.frames ≠ []) :
    s.closeFrame.frames.length < s.frames.length := by
  obtain ⟨c, fs⟩ := s
  cases fs with
  | nil => exact absurd rfl h
  | cons f fs =>
    simp only [State.closeFrame, List.length_cons]
    split
    · rw [length_markAfterBlock]; omega
    · omega

theorem length_frames_stepStatement_le (c : Cursor) (d n : Nat) (fs : List OpenFrame) :
    (stepStatement c d n fs).frames.length ≤ fs.length + 2 := by
  unfold stepStatement
  simp only
  repeat' split
  all_goals simp

/-- A statement that is not at its end moves at least one lexeme. -/
theorem length_stepStatement_lt {c : Cursor} (d n : Nat) (fs : List OpenFrame)
    (h1 : c.kind 0 ≠ .endOfFile) (h2 : c.kind 0 ≠ .closeBrace) :
    (stepStatement c d n fs).cursor.ahead.length < c.ahead.length := by
  have := length_pos_of_kind_ne h1
  unfold stepStatement
  split
  · contradiction
  · contradiction
  · split <;> simp <;> omega
  · simp; omega
  · simp; omega
  · simp; omega
  · simp only
    split
    · have := length_moveList_le (moveName c) .parameterList
      simp at this ⊢; omega
    · simp; omega
  · simp; omega

theorem length_moveUsing_lt {c : Cursor} {n : Nat} (h : n < c.ahead.length) :
    (moveUsing c n).ahead.length < c.ahead.length := by
  unfold moveUsing
  simp only [ahead_close]
  refine Nat.lt_of_le_of_lt (length_ahead_expect_le _ _) ?_
  refine Nat.lt_of_le_of_lt (length_moveUntil_le _) ?_
  repeat' split
  all_goals (simp; omega)

theorem advances_moveNamespace {s : State} {n : Nat} (h : n < s.cursor.ahead.length) :
    s.Advances (s.moveNamespace n) := by
  have h1 := length_moveUntil_le (k := [.openBrace, .semicolon, .closeBrace])
    (h := ahead_moveReference) (moveTokens (s.cursor.openNode .namespaceDeclaration) n).bump
  simp only [ahead_bump, ahead_moveTokens, ahead_openNode, List.length_tail,
    List.length_drop] at h1
  unfold State.moveNamespace
  simp only
  repeat' split
  all_goals exact .moves (by simp; omega) (by simp)

theorem length_moveTypeWord_lt {c : Cursor} {n : Nat} (h : n < c.ahead.length) :
    (moveTypeWord c n).ahead.length < c.ahead.length := by
  unfold moveTypeWord
  simp only
  split <;> simp <;> omega

theorem advances_moveType {s : State} {n : Nat} (h : n < s.cursor.ahead.length) :
    s.Advances (s.moveType n) := by
  have h0 := length_moveTypeWord_lt h
  have h1 := length_ahead_expect_le (moveTypeWord s.cursor n) .identifier
  have h2 := length_moveUntil_le (k := [.openBrace, .semicolon, .closeBrace])
    (h := ahead_moveToken) ((moveTypeWord s.cursor n).expect .identifier)
  unfold State.moveType
  simp only
  repeat' split
  all_goals exact .moves (by simp; omega) (by simp)

theorem length_moveInitializer_le (c : Cursor) :
    (moveInitializer c).ahead.length ≤ c.ahead.length := by
  unfold moveInitializer
  split
  · simp only [ahead_close]
    refine Nat.le_trans (length_moveList_le _ _) ?_
    split
    · simp; omega
    · simp
  · exact Nat.le_refl _

theorem advances_moveConstructor {s : State} {n : Nat} (h : n < s.cursor.ahead.length) :
    s.Advances (s.moveConstructor n) := by
  unfold State.moveConstructor
  simp only
  generalize hc : moveInitializer _ = c
  have h0 : c.ahead.length < s.cursor.ahead.length := by
    rw [← hc]
    refine Nat.lt_of_le_of_lt (length_moveInitializer_le _) ?_
    refine Nat.lt_of_le_of_lt (length_moveList_le _ _) ?_
    simp; omega
  split
  all_goals exact .moves (by simp; omega) (by simp)

/-- An item of one of these sorts has a lexeme after its head. -/
theorem kind_ne_of_classify {fs : List OpenFrame} {c : Cursor} {n : Nat}
    (h : classify fs c n ≠ .member) (h' : classify fs c n ≠ .statement) :
    n < c.ahead.length := by
  apply length_pos_of_kind_ne
  intro he
  simp only [classify, he] at h h'
  split at h <;> simp_all

/-- A statement that is opened before a lexeme of it moves past this next. -/
theorem advances_openStatement {s : State} (k : NodeKind) (h1 : s.cursor.kind 0 ≠ .endOfFile)
    (h2 : s.cursor.kind 0 ≠ .closeBrace) : s.Advances (s.openStatement k) :=
  .opens k (length_stepStatement_lt (c := s.cursor.openNode k) 0 1 s.frames h1 h2)

theorem advances_moveItem {s : State} (h1 : s.cursor.kind 0 ≠ .endOfFile)
    (h2 : s.cursor.kind 0 ≠ .closeBrace) : s.Advances s.moveItem := by
  have hn : ∀ i, classify s.frames s.cursor (headLength 0 s.cursor.ahead) = i → i ≠ .member →
      i ≠ .statement → headLength 0 s.cursor.ahead < s.cursor.ahead.length := by
    rintro i rfl a b
    exact kind_ne_of_classify a b
  unfold State.moveItem
  simp only
  split
  · next h =>
    have := length_moveUsing_lt (hn _ h (by simp) (by simp))
    exact .moves this (Nat.le_succ _)
  · next h => exact advances_moveNamespace (hn _ h (by simp) (by simp))
  · next h => exact advances_moveType (hn _ h (by simp) (by simp))
  · next h => exact advances_moveConstructor (hn _ h (by simp) (by simp))
  · exact advances_openStatement .memberDeclaration h1 h2
  · exact advances_openStatement .statement h1 h2

/-- A statement moves at least one lexeme, or it is at its end and closes. -/
theorem advances_stepStatement (c : Cursor) (depth nodes : Nat) (afterBlock : Bool)
    (fs : List OpenFrame) :
    State.Advances ⟨c, ⟨.statement depth afterBlock, nodes⟩ :: fs⟩
      (stepStatement c depth nodes fs) := by
  by_cases hk : c.kind 0 = .endOfFile ∨ c.kind 0 = .closeBrace
  · have hs : stepStatement c depth nodes fs = ⟨c.closeMany nodes, fs⟩ := by
      rcases hk with hk | hk <;> simp only [stepStatement, hk]
    rw [hs]
    exact .closes (by simp) (by simp)
  · obtain ⟨h1, h2⟩ := not_or.1 hk
    have hf := length_frames_stepStatement_le c depth nodes fs
    exact .moves (length_stepStatement_lt depth nodes fs h1 h2) (by simpa using hf)

/-- Every round moves past a lexeme, closes a frame, or opens a statement that the next round moves
on with. -/
theorem advances_step {s : State} (h : s.isDone = false) : s.Advances s.step := by
  obtain ⟨c, fs⟩ := s
  unfold State.step
  split
  · next h0 =>
    obtain rfl : fs = [] := h0
    have hk : c.kind 0 ≠ .endOfFile := by simpa [State.isDone, sees] using h
    have := length_pos_of_kind_ne hk
    simp only
    split
    · exact .moves (by simp; omega) (by simp)
    · next hb => exact advances_moveItem hk (by simpa [sees] using hb)
  · next depth afterBlock nodes gs h0 =>
    obtain rfl : fs = _ := h0
    split
    · exact .closes (by simp) (length_frames_closeFrame (by simp))
    · exact advances_stepStatement c depth nodes afterBlock gs
  · next f gs hf h0 =>
    obtain rfl : fs = _ := h0
    have hl (c' : Cursor) := length_frames_closeFrame (s := ⟨c', f :: gs⟩) (by simp)
    simp only
    split
    · exact .closes (by simp) (hl _)
    · next hb =>
      have := length_pos_of_kind_ne (c := c) (n := 0) (by rw [hb]; decide)
      exact .moves (by simp; omega) (Nat.le_succ_of_le (Nat.le_of_lt (hl _)))
    · next h1 h2 => exact advances_moveItem h1 h2

theorem step_size_lt (s : State) (h : s.isDone = false) : s.step.size < s.size := by
  have hs := advances_step h
  generalize hs' : s.step = s' at hs
  unfold State.size
  rw [hs']
  cases hs with
  | moves ha hf =>
    rw [if_pos ha]
    split <;> omega
  | closes ha hf =>
    rw [ha, if_neg (Nat.lt_irrefl _)]
    split <;> omega
  | opens k hn =>
    have ha : (s.openStatement k).cursor.ahead = s.cursor.ahead := rfl
    have hf : (s.openStatement k).frames.length = s.frames.length + 1 := rfl
    rw [ha, hf, if_pos hn, if_neg (Nat.lt_irrefl _)]
    omega

/-- Runs the parser to its end. -/
def State.run (s : State) : State :=
  repeatUntil State.size State.isDone State.step step_size_lt s

/-- The events that describe the lexemes of a text, the oldest first. -/
def events (q : LexemeSeq) : List Event :=
  (State.run ⟨.ofLexemes q.lexemes, []⟩).cursor.events.reverse ++ [.token q.last]

end Xref.CSharp
