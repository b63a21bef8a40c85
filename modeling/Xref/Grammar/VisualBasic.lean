import Xref.Grammar.Cursor
import Xref.Lexeme.Sequence

/-!
# The grammar of Visual Basic

A logical line is one statement: physical lines joined by an underscore, or the parts of a line
between colons. Namespaces, types, `Sub` and `Function` open a block that the matching `End` line
closes, together with every block still open inside it; all other constructs stay flat.

The end of a line is not a lexeme. Whether a lexeme belongs to the line of the one before it is
asked of the lexeme itself (`Cursor.continuesAt`).

Each round of the parser takes one line and moves at least its first lexeme
(`length_moveLine_lt`).
-/

namespace Xref.VisualBasic

open Cursor

/-- A block that is open. -/
inductive Block
  | namespace
  | type (isInterface : Bool)
  | constructor
  | sub
  | function
  deriving DecidableEq

/-- A parser between two lines. -/
structure State where
  cursor : Cursor
  /-- The open blocks, the innermost first. -/
  blocks : List Block
  /-- The line declares variables or fields. -/
  declares : Bool

/-- A word, in upper or lower case. -/
def isWord (s : Text) (word : String) : Bool :=
  String.ofList s.asciiLower == word

/-! ## Names -/

/-- The innermost block is a constructor. -/
def inConstructor : List Block → Bool
  | .constructor :: _ => true
  | _ => false

/-- The name ahead is declared here. -/
def declaresName (declarationLine inParameters : Bool) (c : Cursor) : Bool :=
  (c.kind 1 == .asKeyword && c.continuesAt 1) ||
    match c.previous with
    | none => false
    | some l =>
      match l.kind with
      | .dimKeyword => true
      | .keyword =>
        isWord l.value "each" || isWord l.value "for" ||
          (inParameters && (isWord l.value "byval" || isWord l.value "byref" ||
            isWord l.value "optional" || isWord l.value "paramarray"))
      | .comma =>
        declarationLine &&
          (!c.continuesAt 1 || c.kind 1 == .comma || c.kind 1 == .equals)
      | _ => false

/-- Moves the next lexeme; a name refers. -/
def moveReference (c : Cursor) : Cursor :=
  if c.sees .identifier then c.wrap .identifierName else c.bump

@[simp] theorem ahead_moveReference (c : Cursor) : (moveReference c).ahead = c.ahead.tail := by
  unfold moveReference
  split <;> simp

theorem length_moveReference_lt (c : Cursor) (h : c.ahead ≠ []) :
    (moveReference c).ahead.length < c.ahead.length := by
  have := List.length_pos_iff.2 h
  rw [ahead_moveReference, List.length_tail]
  omega

theorem ne_nil_of_continuesAt {c : Cursor} (h : c.continuesAt 0 = true) : c.ahead ≠ [] :=
  List.length_pos_iff.1 (length_pos_of_continuesAt h)

/-- Moves lexemes up to the closing parenthesis of the list, or the end of the line. -/
def moveListItems (move : Cursor → Cursor)
    (h : ∀ c, c.ahead ≠ [] → (move c).ahead.length < c.ahead.length) (c : Cursor) : Cursor :=
  (repeatUntil (fun s : Cursor × Nat => s.1.ahead.length)
    (fun s => !s.1.continuesAt 0 || (s.1.sees .closeParen && s.2 == 0))
    (fun s =>
      match s.1.kind 0 with
      | .closeParen => (s.1.bump, s.2 - 1)
      | .openParen => (s.1.bump, s.2 + 1)
      | _ => (move s.1, s.2))
    (fun s hs => by
      simp only [Bool.or_eq_false_iff, Bool.not_eq_false'] at hs
      have h0 := length_pos_of_continuesAt hs.1
      have h1 := h s.1 (by intro he; simp [he] at h0)
      split <;> simp <;> omega)
    (c, 0)).1

theorem length_moveListItems_le {move : Cursor → Cursor}
    {h : ∀ c, c.ahead ≠ [] → (move c).ahead.length < c.ahead.length} (c : Cursor) :
    (moveListItems move h c).ahead.length ≤ c.ahead.length :=
  size_repeatUntil_le (m := fun s : Cursor × Nat => s.1.ahead.length) (c, 0)

/-- Moves the closing parenthesis of a list, unless the line has ended before it. -/
def closeList (c : Cursor) : Cursor :=
  if c.continuesAt 0 then c.bump else c.missing .closeParen

theorem length_closeList_le (c : Cursor) : (closeList c).ahead.length ≤ c.ahead.length := by
  unfold closeList
  split <;> simp

/-- `MyBase.New(…)`, `Me.New(…)`, `MyClass.New(…)`, of which the first three lexemes are ahead. -/
def moveInitializer (c : Cursor) : Cursor :=
  let c := (((c.openNode .constructorInitializer).bump).bump).bump
  let c := c.openNode .argumentList
  let c :=
    if c.sees .openParen && c.continuesAt 0 then
      closeList (moveListItems moveReference length_moveReference_lt c.bump)
    else (c.missing .openParen).missing .closeParen
  c.close.close

theorem length_moveInitializer_le (c : Cursor) :
    (moveInitializer c).ahead.length ≤ c.ahead.length - 3 := by
  unfold moveInitializer
  simp only [ahead_close]
  split
  · refine Nat.le_trans (length_closeList_le _) ?_
    refine Nat.le_trans (length_moveListItems_le _) ?_
    simp; omega
  · simp; omega

/-- An initializer of a constructor is ahead. -/
def seesInitializer (blocks : List Block) (c : Cursor) : Bool :=
  (c.sees .meKeyword || c.sees .myBaseKeyword || c.sees .myClassKeyword) &&
    inConstructor blocks && c.kind 1 == .dot && c.kind 2 == .newKeyword && c.continuesAt 2

/-- Moves the name ahead into a node that tells whether it is declared or refers. -/
def moveName (declarationLine inParameters : Bool) (c : Cursor) : Cursor :=
  c.wrap (if declaresName declarationLine inParameters c then .declarator else .identifierName)

@[simp] theorem ahead_moveName (d p : Bool) (c : Cursor) :
    (moveName d p c).ahead = c.ahead.tail := by
  simp [moveName]

/-- Moves the next lexeme; a name gets a node, and an initializer is moved as a whole. -/
def moveToken (blocks : List Block) (declarationLine inParameters : Bool) (c : Cursor) : Cursor :=
  if c.sees .identifier then moveName declarationLine inParameters c
  else if seesInitializer blocks c then moveInitializer c
  else c.bump

theorem length_moveToken_lt (blocks : List Block) (d p : Bool) (c : Cursor) (h : c.ahead ≠ []) :
    (moveToken blocks d p c).ahead.length < c.ahead.length := by
  have := List.length_pos_iff.2 h
  unfold moveToken
  repeat' split
  · simp; omega
  · have := length_moveInitializer_le c; omega
  · simp; omega

theorem length_moveToken_le (blocks : List Block) (d p : Bool) (c : Cursor) :
    (moveToken blocks d p c).ahead.length ≤ c.ahead.length := by
  by_cases h : c.ahead = []
  · unfold moveToken
    repeat' split
    · simp
    · have := length_moveInitializer_le c; omega
    · simp
  · exact Nat.le_of_lt (length_moveToken_lt blocks d p c h)

namespace State

/-- Moves the next lexeme of the line. -/
def moveToken (s : State) (inParameters : Bool) : State :=
  { s with cursor := VisualBasic.moveToken s.blocks s.declares inParameters s.cursor }

/-- Moves the next `n` lexemes, or more where an initializer is among them. -/
def moveTokens (s : State) : Nat → State
  | 0 => s
  | n + 1 => (s.moveToken false).moveTokens n

/-- Applies a move. -/
def move (s : State) (f : Cursor → Cursor) : State :=
  { s with cursor := f s.cursor }

/-- Moves what is left of the logical line, with the colon that ends it. -/
def finishLine (s : State) : State :=
  let rest := repeatUntil (fun c : Cursor => c.ahead.length)
    (fun c => !c.continuesAt 0 || c.sees .colon)
    (VisualBasic.moveToken s.blocks s.declares false)
    (fun c hc => by
      simp only [Bool.or_eq_false_iff, Bool.not_eq_false'] at hc
      have h0 := length_pos_of_continuesAt hc.1
      exact length_moveToken_lt _ _ _ c (by intro he; simp [he] at h0))
    s.cursor
  { s with cursor := if rest.continuesAt 0 then rest.bump else rest }

end State

/-! ## The head of a line -/

/-- Words that modify a declaration. -/
def modifiers : List String :=
  [ "public", "private", "protected", "friend", "shared", "overrides", "overridable",
    "mustoverride", "notoverridable", "overloads", "shadows", "partial", "readonly", "writeonly",
    "mustinherit", "notinheritable", "default", "declare", "async", "iterator", "widening",
    "narrowing" ]

/-- The lexeme modifies a declaration. -/
def isModifier (l : Lexeme) : Bool :=
  (l.kind == .keyword || l.kind == .identifier) &&
    modifiers.contains (String.ofList l.value.asciiLower)

/-- The lexeme is this operator. -/
def isOperator (l : Lexeme) (c : Char) : Bool :=
  l.kind == .operator && l.value == [c]

/-- The number of lexemes after the `<` of an attribute up to its end: the next `>`, or an
operator that begins a line. -/
def attributeLength? : List Lexeme → Option Nat
  | [] => none
  | l :: ls =>
    if l.startsLine || isOperator l '>' then
      if l.kind = .operator then some 1 else none
    else (attributeLength? ls).map (· + 1)

/-- The number of lexemes that make up attributes and modifiers at the head of a line. -/
def headLength (isFirst : Bool) (ls : List Lexeme) : Nat :=
  match ls with
  | [] => 0
  | l :: ls =>
    if !isFirst && l.startsLine then 0
    else if isOperator l '<' then
      match attributeLength? ls with
      | none => 0
      | some k => 1 + k + headLength false (ls.drop k)
    else if isModifier l then 1 + headLength false ls
    else 0
termination_by ls.length
decreasing_by all_goals simp; try omega

/-- One of the first `n` lexemes is the word. -/
def headContains (c : Cursor) (n : Nat) (word : String) : Bool :=
  (c.ahead.take n).any fun l => isWord l.value word

/-! ## Blocks -/

/-- Whether the block is of the sort that `End` and this word close. -/
def closesWith (k : TokenKind) (b : Block) : Bool :=
  match k, b with
  | .namespaceKeyword, .namespace => true
  | .typeKeyword, .type _ => true
  | .subKeyword, .sub => true
  | .subKeyword, .constructor => true
  | .functionKeyword, .function => true
  | _, _ => false

/-- The word after `End` on the same line. -/
def endWord? (c : Cursor) (n : Nat) : Option TokenKind :=
  if c.continuesAt (n + 1) then some (c.kind (n + 1)) else none

/-- Closes the nodes of the blocks inside the innermost one that `End` and this word close, and
takes that block off without closing its node. -/
def dropBlocks (k : TokenKind) (c : Cursor) : List Block → Cursor × List Block
  | [] => (c, [])
  | b :: bs => if closesWith k b then (c, bs) else dropBlocks k c.close bs

@[simp] theorem ahead_dropBlocks (k : TokenKind) (c : Cursor) (bs : List Block) :
    (dropBlocks k c bs).1.ahead = c.ahead := by
  induction bs generalizing c with
  | nil => rfl
  | cons b bs ih =>
    unfold dropBlocks
    split
    · rfl
    · simp [ih]

/-! ## Lines -/

/-- `Imports [Alias =] Name` -/
def moveImports (c : Cursor) : Cursor :=
  let c := (c.openNode .usingDirective).bump
  let c :=
    if !c.continuesAt 0 then c
    else if c.sees .identifier && c.kind 1 == .equals then
      (((c.openNode .nameEquals).bump).bump).close
    else if c.sees .equals then
      (((c.openNode .nameEquals).missing .identifier).bump).close
    else c
  (repeatUntil (fun c : Cursor => c.ahead.length) (fun c => !c.continuesAt 0) moveReference
    (fun c hc => length_moveReference_lt c (ne_nil_of_continuesAt (by simpa using hc))) c).close

namespace State

/-- Opens a block with the line of its declaration. -/
def openBlock (s : State) (k : NodeKind) (n : Nat) (b : Block) : State :=
  let s := (((s.move (·.openNode k)).moveTokens n).move bump).finishLine
  { s with blocks := b :: s.blocks }

/-- The line of a type. -/
def moveType (s : State) (n : Nat) : State :=
  let isInterface := isWord (s.cursor.value n) "interface"
  let s := ((s.move (·.openNode .classDeclaration)).moveTokens n).move bump
  let s := s.move fun c =>
    if c.sees .identifier && c.continuesAt 0 then c.bump else c.missing .identifier
  let s := s.finishLine
  { s with blocks := .type isInterface :: s.blocks }

/-- The parameters of a method, if the line goes on with a parenthesis. -/
def moveParameters (s : State) : State :=
  if s.cursor.sees .openParen && s.cursor.continuesAt 0 then
    s.move fun c =>
      (closeList (moveListItems (VisualBasic.moveToken s.blocks s.declares true)
        (length_moveToken_lt _ _ _) (c.openNode .parameterList).bump)).close
  else s

/-- The name of a method: `New` for a constructor. -/
def moveMethodName (isConstructor : Bool) (c : Cursor) : Cursor :=
  if isConstructor then c.bump
  else if c.sees .identifier && c.continuesAt 0 then c.wrap .declarator
  else c.missing .identifier

/-- The innermost block is an interface. -/
def inInterface (s : State) : Bool :=
  match s.blocks with
  | .type true :: _ => true
  | _ => false

/-- The kind of node a method is. -/
def methodKind (isConstructor : Bool) : NodeKind :=
  if isConstructor then .constructorDeclaration else .methodDeclaration

/-- The line of a `Sub` or `Function` with nothing closed or opened after it. -/
def moveSignature (s : State) (isConstructor : Bool) (n : Nat) : State :=
  let s := ((s.move (·.openNode (methodKind isConstructor))).moveTokens n).move bump
  ((s.move (moveMethodName isConstructor)).moveParameters).finishLine

/-- The line of a `Sub` or `Function`. -/
def moveMethod (s : State) (n : Nat) : State :=
  let isSub := s.cursor.kind n == .subKeyword
  let isConstructor := isSub && s.cursor.kind (n + 1) == .newKeyword
  let hasBody := !s.inInterface && !headContains s.cursor n "mustoverride" &&
    !headContains s.cursor n "declare"
  let s := s.moveSignature isConstructor n
  if hasBody then
    let b := if isConstructor then .constructor else if isSub then .sub else .function
    { s with blocks := b :: s.blocks }
  else s.move close

/-- The line that closes the innermost block which `End` and this word close. -/
def moveEnd (s : State) (n : Nat) (k : TokenKind) : State :=
  let d := dropBlocks k s.cursor s.blocks
  let s := { s with cursor := d.1, blocks := d.2 }
  (((((s.moveTokens n).move bump).move bump).finishLine).move close)

/-- The kind of node a line of no other sort is. -/
def lineKind : List Block → NodeKind
  | .type _ :: _ => .memberDeclaration
  | _ => .statement

/-- A line of any other sort, a member of a type or a statement. -/
def moveOther (s : State) : State :=
  let s := (s.move (·.openNode (lineKind s.blocks))).moveToken false
  if s.cursor.previousIs .colon then s.move close else s.finishLine.move close

/-- The number of lexemes before the word that tells what the line is, and the kind of this word;
modifiers alone on a line do not begin the declaration below them. -/
def lineHead (c : Cursor) : Nat × TokenKind :=
  let n := headLength true c.ahead
  (n, if n > 0 && !c.continuesAt n then .badToken else c.kind n)

/-- Moves one logical line. -/
def moveLine (s : State) : State :=
  let (n, k) := lineHead s.cursor
  let s :=
    { s with declares := k == TokenKind.dimKeyword || (n > 0 && k == TokenKind.identifier) }
  match k with
  | .importsKeyword => s.move moveImports
  | .namespaceKeyword => s.openBlock .namespaceDeclaration n .namespace
  | .typeKeyword => s.moveType n
  | .subKeyword | .functionKeyword => s.moveMethod n
  | .endKeyword =>
    match endWord? s.cursor n with
    | some w => if s.blocks.any (closesWith w) then s.moveEnd n w else s.moveOther
    | none => s.moveOther
  | _ => s.moveOther

/-! ## Every line makes progress -/

@[simp] theorem ahead_move (s : State) (f : Cursor → Cursor) :
    (s.move f).cursor.ahead = (f s.cursor).ahead := rfl

theorem length_moveToken_lt {s : State} {p : Bool} (h : s.cursor.ahead ≠ []) :
    (s.moveToken p).cursor.ahead.length < s.cursor.ahead.length :=
  VisualBasic.length_moveToken_lt _ _ _ _ h

theorem length_moveTokens_le (s : State) (n : Nat) :
    (s.moveTokens n).cursor.ahead.length ≤ s.cursor.ahead.length - n := by
  induction n generalizing s with
  | zero => exact Nat.le_refl _
  | succ n ih =>
    have h1 := ih (s.moveToken false)
    by_cases h : s.cursor.ahead = []
    · have h2 := VisualBasic.length_moveToken_le s.blocks s.declares false s.cursor
      simp only [moveToken, h, List.length_nil] at h1 h2
      simp only [moveTokens, moveToken, h, List.length_nil]
      omega
    · have h2 := length_moveToken_lt (s := s) (p := false) h
      simp only [moveTokens]
      omega

theorem length_finishLine_le (s : State) :
    s.finishLine.cursor.ahead.length ≤ s.cursor.ahead.length := by
  unfold finishLine
  simp only
  split
  · simp only [ahead_bump, List.length_tail]
    exact Nat.le_trans (Nat.sub_le _ _)
      (size_repeatUntil_le (m := fun c : Cursor => c.ahead.length) s.cursor)
  · exact size_repeatUntil_le (m := fun c : Cursor => c.ahead.length) s.cursor

theorem length_moveParameters_le (s : State) :
    s.moveParameters.cursor.ahead.length ≤ s.cursor.ahead.length := by
  unfold moveParameters
  split
  · simp only [ahead_move, ahead_close]
    refine Nat.le_trans (length_closeList_le _) ?_
    refine Nat.le_trans (length_moveListItems_le _) ?_
    simp
  · exact Nat.le_refl _

theorem length_moveMethodName_le (b : Bool) (c : Cursor) :
    (moveMethodName b c).ahead.length ≤ c.ahead.length := by
  unfold moveMethodName
  repeat' split
  all_goals simp

theorem length_moveImports_lt {c : Cursor} (h : c.ahead ≠ []) :
    (moveImports c).ahead.length < c.ahead.length := by
  have h0 := List.length_pos_iff.2 h
  unfold moveImports
  simp only [ahead_close]
  refine Nat.lt_of_le_of_lt
    (size_repeatUntil_le (m := fun c : Cursor => c.ahead.length) _) ?_
  repeat' split
  all_goals (simp; omega)

/-- A head and the word after it are moved before anything else of the line. -/
theorem length_head_le (s : State) (k : NodeKind) (n : Nat) :
    (((s.move (·.openNode k)).moveTokens n).move bump).cursor.ahead.length
      ≤ s.cursor.ahead.length - (n + 1) := by
  have := length_moveTokens_le (s.move (·.openNode k)) n
  simp at this ⊢
  omega

theorem length_openBlock_le (s : State) (k : NodeKind) (n : Nat) (b : Block) :
    (s.openBlock k n b).cursor.ahead.length ≤ s.cursor.ahead.length - (n + 1) :=
  Nat.le_trans (length_finishLine_le _) (length_head_le s k n)

theorem length_moveType_le (s : State) (n : Nat) :
    (s.moveType n).cursor.ahead.length ≤ s.cursor.ahead.length - (n + 1) := by
  refine Nat.le_trans (length_finishLine_le _) ?_
  refine Nat.le_trans ?_ (length_head_le s .classDeclaration n)
  simp only [ahead_move]
  split <;> simp

theorem length_moveSignature_le (s : State) (b : Bool) (n : Nat) :
    (s.moveSignature b n).cursor.ahead.length ≤ s.cursor.ahead.length - (n + 1) :=
  Nat.le_trans (length_finishLine_le _) <|
    Nat.le_trans (length_moveParameters_le _) <|
      Nat.le_trans (length_moveMethodName_le _ _) (length_head_le s _ n)

theorem length_moveMethod_le (s : State) (n : Nat) :
    (s.moveMethod n).cursor.ahead.length ≤ s.cursor.ahead.length - (n + 1) := by
  unfold moveMethod
  simp only
  split
  · exact length_moveSignature_le s _ n
  · simpa using length_moveSignature_le s _ n

theorem length_moveEnd_le (s : State) (n : Nat) (k : TokenKind) :
    (s.moveEnd n k).cursor.ahead.length ≤ s.cursor.ahead.length - (n + 1) := by
  unfold moveEnd
  simp only [ahead_move, ahead_close]
  refine Nat.le_trans (length_finishLine_le _) ?_
  have := length_moveTokens_le
    { s with cursor := (dropBlocks k s.cursor s.blocks).1,
             blocks := (dropBlocks k s.cursor s.blocks).2 } n
  simp at this ⊢
  omega

theorem length_moveOther_lt {s : State} (h : s.cursor.ahead ≠ []) :
    s.moveOther.cursor.ahead.length < s.cursor.ahead.length := by
  unfold moveOther
  simp only
  have h1 := length_moveToken_lt (s := s.move (·.openNode (lineKind s.blocks))) (p := false) h
  simp only [ahead_move, ahead_openNode] at h1
  split
  · simpa using h1
  · simp only [ahead_move, ahead_close]
    exact Nat.lt_of_le_of_lt (length_finishLine_le _) h1

/-- A line takes at least one lexeme. -/
theorem length_moveLine_lt (s : State) (h : s.cursor.atEnd = false) :
    s.moveLine.cursor.ahead.length < s.cursor.ahead.length := by
  have hne : s.cursor.ahead ≠ [] := by simpa [atEnd] using h
  have h0 := List.length_pos_iff.2 hne
  unfold moveLine
  simp only
  split
  · exact length_moveImports_lt hne
  · exact Nat.lt_of_le_of_lt (length_openBlock_le _ _ _ _) (by simp only; omega)
  · exact Nat.lt_of_le_of_lt (length_moveType_le _ _) (by simp only; omega)
  · exact Nat.lt_of_le_of_lt (length_moveMethod_le _ _) (by simp only; omega)
  · exact Nat.lt_of_le_of_lt (length_moveMethod_le _ _) (by simp only; omega)
  · split
    · split
      · exact Nat.lt_of_le_of_lt (length_moveEnd_le _ _ _) (by simp only; omega)
      · exact length_moveOther_lt (s := { s with declares := _ }) hne
    · exact length_moveOther_lt (s := { s with declares := _ }) hne
  · exact length_moveOther_lt (s := { s with declares := _ }) hne

/-- Runs the parser up to the end of the text. -/
def run (s : State) : State :=
  repeatUntil (fun s => s.cursor.ahead.length) (fun s => s.cursor.atEnd) moveLine
    length_moveLine_lt s

end State

/-- The events that describe the lexemes of a text, the oldest first. Blocks that are still open
at the end close there. -/
def events (q : LexemeSeq) : List Event :=
  let s := State.run ⟨.ofLexemes q.lexemes, [], false⟩
  (s.cursor.closeMany s.blocks.length).events.reverse ++ [.token q.last]

end Xref.VisualBasic
