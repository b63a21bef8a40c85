import Xref.Language

/-!
# Requests

What the arguments of a command line ask for. A command and its operands may have options before
and after them; an option may be given once on each side, and the side of the operands counts.
After `--` everything is an operand. Arguments that ask for nothing have no request.
-/

namespace Xref.CommandLine

/-- What is to be done. -/
inductive Command
  /-- List the tokens that match a name. -/
  | tokens (file : String) (name : Text)
  /-- List the references to the symbol at a line and a column, both counted from one. -/
  | references (file : String) (line column : Nat)
  deriving DecidableEq

/-- A command and its options. -/
structure Request where
  /-- The language, where it is not to be told by the file's extension. -/
  language : Option Language
  /-- Results are written as JSON. -/
  json : Bool
  command : Command
  deriving DecidableEq

/-! ## Arguments -/

/-- One argument, or an option with its value. -/
inductive Argument
  | json
  | language (l : Language)
  /-- A word that could be a command or an operand. -/
  | word (s : String)
  /-- An operand after `--`. -/
  | operand (s : String)
  deriving DecidableEq

namespace Argument

/-- The language that an option names. -/
def languageNamed? : String → Option Language
  | "cs" => some .csharp
  | "vb" => some .visualBasic
  | _ => none

/-- The value of an option that has it attached. -/
def attached? (option argument : String) : Option String :=
  let mark := (option ++ "=").toList
  if mark.isPrefixOf argument.toList then
    some (String.ofList (argument.toList.drop mark.length))
  else none

/-- Begins as options do. One dash alone does not. -/
def isDashed (s : String) : Bool :=
  match s.toList with
  | '-' :: _ :: _ => true
  | _ => false

/-- Reads an argument that stands alone. -/
def ofString? (s : String) : Option Argument :=
  if s = "--json" then some json
  else if isDashed s then
    ((attached? "--language" s).bind languageNamed?).map language
  else some (word s)

/-- Reads all arguments, unless one of them is no option although it looks like one. -/
def read? : List String → Option (List Argument)
  | [] => some []
  | "--" :: r => some (r.map operand)
  | ["--language"] => none
  | "--language" :: v :: r => do
    let l ← languageNamed? v
    return language l :: (← read? r)
  | s :: r => do
    let a ← ofString? s
    return a :: (← read? r)

/-- The text of an operand. -/
def text? : Argument → Option String
  | word s => some s
  | operand s => some s
  | _ => none

/-- The language that an option gives. -/
def language? : Argument → Option Language
  | language l => some l
  | _ => none

end Argument

/-! ## Options -/

/-- The options on one side of the command. -/
structure Options where
  language : Option Language
  json : Bool

namespace Options

/-- The options among some arguments, unless one of them is repeated. -/
def of? (as : List Argument) : Option Options :=
  let languages := as.filterMap Argument.language?
  let marks := as.filter fun a => decide (a = .json)
  if languages.length ≤ 1 && marks.length ≤ 1 then some ⟨languages.head?, !marks.isEmpty⟩
  else none

end Options

/-! ## Commands -/

/-- Reads a number of 32 bits, which may have a sign. -/
def number? (s : String) : Option Nat := do
  let (isNegative, digits) :=
    match s.toList with
    | '+' :: r => (false, r)
    | '-' :: r => (true, r)
    | r => (false, r)
  if digits.isEmpty || !digits.all Char.isDigit then none
  let n := digits.foldl (fun n c => 10 * n + (c.toNat - '0'.toNat)) 0
  if n < 4294967296 && (!isNegative || n = 0) then some n else none

/-- The command of the given name with its operands. -/
def Command.of? (name : String) (operands : List String) : Option Command :=
  match name, operands with
  | "tokens", [file, name] => if file = "" then none else some (.tokens file name.toList)
  | "references", [file, line, column] => do
    if file = "" then none
    return .references file (← number? line) (← number? column)
  | _, _ => none

/-- Not a word. -/
def Argument.isOption : Argument → Bool
  | word _ => false
  | _ => true

/-- What the arguments ask for. -/
def Request.ofArguments? (arguments : List String) : Option Request := do
  let (before, rest) := (← Argument.read? arguments).span Argument.isOption
  match rest with
  | .word name :: after =>
    if before.any fun a => a.text?.isSome then none
    let outer ← Options.of? before
    let inner ← Options.of? after
    let command ← Command.of? name (after.filterMap Argument.text?)
    return ⟨inner.language <|> outer.language, inner.json || outer.json, command⟩
  | _ => none

end Xref.CommandLine
