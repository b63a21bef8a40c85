import Xref.Text.Basic
import Xref.Unicode.Character

/-!
# Languages

The two languages whose sources are read. The language decides the lexical rules and whether
names that differ in case only are one name.
-/

namespace Xref

/-- A source language. -/
inductive Language
  | csharp
  | visualBasic
  deriving DecidableEq, Inhabited

/-- The text in lower case, one character at a time. -/
def Text.fold (s : Text) : Text :=
  s.flatMap Unicode.lowercase

namespace Language

/-- Every language. -/
def all : List Language := [csharp, visualBasic]

/-- The name by which semantic models report the language. -/
def name : Language → String
  | csharp => "C#"
  | visualBasic => "Visual Basic"

/-- The language of a name. -/
def ofName? (s : String) : Option Language :=
  all.find? fun l => l.name == s

/-- The language of a file name's extension, given without the dot, in upper or lower case. -/
def ofExtension? (s : String) : Option Language :=
  match String.ofList (s.toList.map Char.toLower) with
  | "cs" | "csx" => some csharp
  | "vb" | "vbx" => some visualBasic
  | _ => none

/-- Names that differ in case are different names. -/
def isCaseSensitive : Language → Bool
  | csharp => true
  | visualBasic => false

/-- The form of a name that all spellings of the same name share. -/
def normalize (l : Language) (name : Text) : Text :=
  if l.isCaseSensitive then name else name.fold

end Language

end Xref
