import Xref.Identifier.Basic
import Xref.Lexeme.Keyword
import Xref.Text.Source

/-!
# The shape of a token

At a character that begins a token, a scanner tells what the token is: its kind, how many
characters it takes after its first one, and the name it stands for if it is spelled with an
escape. A token is never empty, and what follows it is what is left after these characters, so no
scanner can lose or repeat any of the text.
-/

namespace Xref

/-- What a scanner finds at the first character of a token. -/
structure Shape where
  kind : TokenKind
  /-- How many characters follow the first one. -/
  more : Nat
  decoded : Option Text := none

namespace Shape

open Identifier

/-! ## Escapes in names -/

/-- The value of hexadecimal digits. -/
def hexValue (ds : Text) : Nat :=
  ds.foldl (fun n d =>
    16 * n + (if d.isDigit then d.toNat - 48 else if d.isLower then d.toNat - 87 else d.toNat - 55)) 0

/-- Is a hexadecimal digit. -/
def isHexDigit (c : Char) : Bool :=
  c.isDigit || ('a' ≤ c && c ≤ 'f') || ('A' ≤ c && c ≤ 'F')

/-- The character whose code point the first `n` characters spell in base sixteen. -/
def hexChar? (n : Nat) (s : Text) : Option Char :=
  let ds := s.take n
  if ds.length = n && ds.all isHexDigit && decide (Nat.isValidChar (hexValue ds)) then
    some (Char.ofNat (hexValue ds))
  else none

/-- The character that an escape stands for, and the escape's length after the backslash. -/
def escape? : Text → Option (Char × Nat)
  | 'u' :: s => (hexChar? 4 s).map (·, 5)
  | 'U' :: s => (hexChar? 8 s).map (·, 9)
  | _ => none

/-- The character of a name that is spelled at `c`, either by itself or by an escape, and how
many characters of the spelling follow `c`. -/
def spelled? (ok : Char → Bool) (c : Char) (r : Text) : Option (Char × Nat) :=
  if c = '\\' then (escape? r).filter fun u => ok u.1
  else if ok c then some (c, 0)
  else none

/-- The spellings of which a name consists, the first under `ok`. -/
def spellings (ok : Char → Bool) (s : Text) : List (Char × Nat) :=
  match s with
  | [] => []
  | c :: r =>
    match spelled? ok c r with
    | none => []
    | some u => u :: spellings isPart (r.drop u.2)
termination_by s.length
decreasing_by simp only [List.length_drop, List.length_cons]; omega

/-- The name that spellings spell. -/
def spelledName (us : List (Char × Nat)) : Text :=
  us.map (·.1)

/-- How many characters spellings take. -/
def spelledLength : List (Char × Nat) → Nat
  | [] => 0
  | u :: us => u.2 + 1 + spelledLength us

/-- Some spelling is an escape. -/
def anyEscape (us : List (Char × Nat)) : Bool :=
  us.any fun u => u.2 != 0

/-! ## Strings and numbers -/

/-- The rest of a literal closed by `q` on its line, in which a backslash guards what follows. -/
def quotedLength (q : Char) : Text → Nat
  | [] => 0
  | [c] => if isLineBreak c then 0 else 1
  | c :: d :: r =>
    if isLineBreak c then 0
    else if c = '\\' then
      if isLineBreak d then 1 else 2 + quotedLength q r
    else if c = q then 1
    else 1 + quotedLength q (d :: r)

/-- The rest of a literal closed by a quote, in which a doubled quote stands for one. -/
def verbatimLength : Text → Nat
  | [] => 0
  | [_] => 1
  | c :: d :: r =>
    if c = '"' then
      if d = '"' then 2 + verbatimLength r else 1
    else 1 + verbatimLength (d :: r)

/-- The rest of a Visual Basic literal, and its kind: `c` after the closing quote makes it a
character. -/
def basicLiteral : Text → Nat × TokenKind
  | [] => (0, .stringLiteral)
  | [c] => (if isLineBreak c then 0 else 1, .stringLiteral)
  | c :: d :: r =>
    if isLineBreak c then (0, .stringLiteral)
    else if c = '"' then
      if d = '"' then
        let (n, k) := basicLiteral r
        (2 + n, k)
      else if (d = 'c' || d = 'C') && !(r.head?.any isPart) then (2, .characterLiteral)
      else (1, .stringLiteral)
    else
      let (n, k) := basicLiteral (d :: r)
      (1 + n, k)

/-- The rest of a number: letters, digits and underscores, and points before digits. -/
def numberLength : Text → Nat
  | [] => 0
  | c :: r =>
    if isPart c || (c = '.' && r.head?.any Char.isDigit) then 1 + numberLength r else 0

/-- A number begins at `c`. -/
def beginsNumber (c : Char) (r : Text) : Bool :=
  c.isDigit || (c = '.' && r.head?.any Char.isDigit)

/-! ## Marks -/

/-- The operators of more than one character. -/
def operators : Language → List Text
  | .csharp =>
    [ "=>", "==", "!=", "<=", ">=", "&&", "||", "++", "--", "+=", "-=", "*=", "/=", "%=", "&=",
      "|=", "^=", "??", "?.", "::", "->" ].map String.toList
  | .visualBasic =>
    [ "<>", "<=", ">=", ":=", "+=", "-=", "*=", "/=", "&=", "^=", "<<", ">>" ].map String.toList

/-- The kind of a mark of one character. -/
def markKind (l : Language) (c : Char) : TokenKind :=
  match c with
  | '(' => .openParen
  | ')' => .closeParen
  | '{' => .openBrace
  | '}' => .closeBrace
  | '[' => .openBracket
  | ']' => .closeBracket
  | ';' => .semicolon
  | ',' => .comma
  | '.' => .dot
  | ':' => .colon
  | '=' => .equals
  | '#' => if l = .visualBasic then .operator else .badToken
  | '+' | '-' | '*' | '/' | '%' | '<' | '>' | '!' | '&' | '|' | '^' | '~' | '?' | '\\' => .operator
  | _ => .badToken

/-- An operator or mark, the operators of more than one character first. -/
def mark (l : Language) (c : Char) (r : Text) : Shape :=
  match (operators l).find? (·.isPrefixOf (c :: r)) with
  | some op =>
    { kind := if op = ['=', '>'] then .arrow else .operator, more := op.length - 1 }
  | none => { kind := markKind l c, more := 0 }

/-! ## Tokens -/

/-- The shape of the C# token that begins at `c`. -/
def csharp (c : Char) (r : Text) : Shape :=
  if c = '@' && r.head? = some '"' then
    { kind := .stringLiteral, more := 1 + verbatimLength (r.drop 1) }
  else if c = '@' && r.take 2 = ['$', '"'] then
    { kind := .stringLiteral, more := 2 + verbatimLength (r.drop 2) }
  else if c = '@' && (r.head?.any isStart ||
      (r.head? = some '\\' && (escape? (r.drop 1)).isSome)) then
    let us := spellings isStart r
    { kind := .identifier, more := spelledLength us, decoded := some (spelledName us) }
  else if c = '$' && r.head? = some '"' then
    { kind := .stringLiteral, more := 1 + quotedLength '"' (r.drop 1) }
  else if c = '$' && r.take 2 = ['@', '"'] then
    { kind := .stringLiteral, more := 2 + verbatimLength (r.drop 2) }
  else if c = '"' then { kind := .stringLiteral, more := quotedLength '"' r }
  else if c = '\'' then { kind := .characterLiteral, more := quotedLength '\'' r }
  else
    match spelled? isStart c r with
    | some u =>
      let us := spellings isPart (r.drop u.2)
      let name := u.1 :: spelledName us
      if anyEscape (u :: us) then
        { kind := .identifier, more := u.2 + spelledLength us, decoded := some name }
      else
        { kind := (Keyword.kind? .csharp name).getD .identifier, more := u.2 + spelledLength us }
    | none =>
      if beginsNumber c r then { kind := .numericLiteral, more := numberLength r }
      else mark .csharp c r

/-- The shape of the Visual Basic token that begins at `c`. -/
def visualBasic (c : Char) (r : Text) : Shape :=
  if c = '[' && r.head?.any isStart && (r.dropWhile isPart).head? = some ']' then
    let name := r.takeWhile isPart
    { kind := .identifier, more := name.length + 1, decoded := some name }
  else if c = '"' then
    let (n, k) := basicLiteral r
    { kind := k, more := n }
  else if isStart c then
    let word := c :: r.takeWhile isPart
    { kind := (Keyword.kind? .visualBasic word).getD .identifier, more := word.length - 1 }
  else if beginsNumber c r then { kind := .numericLiteral, more := numberLength r }
  else mark .visualBasic c r

/-- The shape of the token that begins at `c`. -/
def ofLanguage : Language → Char → Text → Shape
  | .csharp => csharp
  | .visualBasic => visualBasic

end Shape

end Xref
