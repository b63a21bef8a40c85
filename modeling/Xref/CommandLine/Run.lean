import Xref.CommandLine.Json
import Xref.CommandLine.Path
import Xref.CommandLine.Request
import Xref.References.Find
import Xref.Tree.Parse

/-!
# Running a request

A request is run on the text of its file. Results are lists of places: lines of the form
`path:line:column: what`, or JSON. Lines and columns are counted from one in requests and in lines;
the locations in JSON are counted from zero, as editors do.
-/

namespace Xref.CommandLine

/-- Why a request has no result. -/
inductive Failure
  /-- The file cannot be read as text. -/
  | unreadable (path : String) (reason : String)
  | unknownLanguage (path : String)
  | outside (line column : Nat)
  | noSymbol (line column : Nat)
  | cache (f : Xref.Failure)
  deriving DecidableEq

/-- A line and a column. -/
def place (line column : Nat) : String :=
  toString line ++ ":" ++ toString column

/-- The sentence that tells a failure. -/
def Failure.message : Failure → String
  | unreadable path reason => "I/O error for '" ++ path ++ "': " ++ reason
  | unknownLanguage path => "cannot infer the language of '" ++ path ++ "'; pass --language"
  | outside line column => "position " ++ place line column ++ " is outside the file"
  | noSymbol line column => "no symbol at " ++ place line column
  | cache f => f.message

/-- The file that a command reads. -/
def Command.file : Command → String
  | tokens file _ => file
  | references file _ _ => file

/-- The language of the file: the one asked for, or else the one its extension tells. -/
def Request.languageOf (r : Request) : Except Failure Language :=
  match r.language <|> Path.language? r.command.file with
  | some l => .ok l
  | none => .error (.unknownLanguage r.command.file)

/-- The contents of a file as text. -/
def decode (path : String) (bytes : ByteArray) : Except Failure Text :=
  match String.fromUTF8? bytes with
  | some s => .ok s.toList
  | none => .error (.unreadable path "stream did not contain valid UTF-8")

/-- The result of a query to a cache that has not been asked anything yet. -/
def ask {α : Type} (q : Query α) : Except Failure α :=
  match (q.run {}).1 with
  | .ok a => .ok a
  | .error f => .error (.cache f)

/-! ## Written results -/

/-- The line for a place in a file. -/
def resultLine (file : String) (p : Position) (what : Text) : Text :=
  (file ++ ":" ++ place (p.line + 1) (p.column + 1) ++ ": ").toList ++ what ++ ['\n']

/-- The JSON text of a result. -/
def document (v : Json) : Text :=
  v.write ++ ['\n']

/-- A token as JSON. -/
def tokenJson (s : SourceText) (t : Token) : Json :=
  let p := s.position t.span.start
  .record [("line", .number (p.line + 1)), ("column", .number (p.column + 1)),
    ("start", .number t.span.start), ("end", .number t.span.stop), ("text", .text t.text)]

/-- A location as JSON. -/
def locationJson (l : Location) : Json :=
  .record [("line", .number l.line), ("start_char", .number l.startColumn),
    ("end_char", .number l.stopColumn), ("start", .number l.span.start),
    ("end", .number l.span.stop), ("kind", .text l.kind.tag.toList)]

/-! ## Commands -/

/-- Lists the tokens that match a name. -/
def listTokens (a : Artifacts) (json : Bool) (file : String) (name : Text) :
    Except Failure Text := do
  let ts := (← ask (Query.tokensOf a name false)).map (·.token)
  if json then return document (.list (ts.map (tokenJson a.source)))
  else return ts.flatMap fun t => resultLine file (a.source.position t.span.start) t.text

/-- Lists the references to the symbol at a line and a column. -/
def listReferences (a : Artifacts) (json : Bool) (file : String) (line column : Nat) :
    Except Failure Text := do
  if line = 0 || column = 0 then throw (.outside line column)
  let some offset := a.source.offset? ⟨line - 1, column - 1⟩ | throw (.outside line column)
  let some s ← ask (Query.symbolAt a offset) | throw (.noSymbol line column)
  let ls ← ask (Query.references a s false)
  if json then
    return document (.record [("symbol", .text s.name), ("kind", .text s.kind.name.toList),
      ("references", .list (ls.map locationJson))])
  else return ls.flatMap fun l => resultLine file ⟨l.line, l.startColumn⟩ l.kind.words.toList

/-- The result of a request on the text of its file. -/
def Request.answer (r : Request) (l : Language) (chars : Text) : Except Failure Text :=
  let a := Artifacts.ofTree r.command.file (.parse l (.ofText chars 0))
  match r.command with
  | .tokens file name => listTokens a r.json file name
  | .references file line column => listReferences a r.json file line column

/-- Runs a request, given how files are read. -/
def Request.run {m : Type → Type} [Monad m] (r : Request)
    (read : String → m (Except String ByteArray)) : m (Except Failure Text) := do
  match r.languageOf with
  | .error f => return .error f
  | .ok l =>
    match ← read r.command.file with
    | .error reason => return .error (.unreadable r.command.file reason)
    | .ok bytes => return do r.answer l (← decode r.command.file bytes)

end Xref.CommandLine
