import Xref.Kind
import Xref.Language

/-!
# Reserved words

The words each language reserves, and the words that name its directives. C# reserves words as
they are written, Visual Basic in upper and lower case alike. Words that are reserved in some
places only (`var`, `await`, `record`) are not listed: they are names.
-/

namespace Xref.Keyword

/-- Reserved words by the kind of token they are. -/
abbrev Table := List (TokenKind × List String)

/-- The reserved words of C#. -/
def csharp : Table := [
  (.thisKeyword, ["this"]),
  (.baseKeyword, ["base"]),
  (.usingKeyword, ["using"]),
  (.namespaceKeyword, ["namespace"]),
  (.typeKeyword, ["class", "struct", "interface", "enum"]),
  (.newKeyword, ["new"]),
  (.predefinedTypeKeyword, [
    "bool", "byte", "char", "decimal", "double", "float", "int", "long", "object", "sbyte",
    "short", "string", "uint", "ulong", "ushort", "void"]),
  (.keyword, [
    "abstract", "as", "break", "case", "catch", "checked", "const", "continue", "default",
    "delegate", "do", "else", "event", "explicit", "extern", "false", "finally", "fixed", "for",
    "foreach", "goto", "if", "implicit", "in", "internal", "is", "lock", "null", "operator",
    "out", "override", "params", "private", "protected", "public", "readonly", "ref", "return",
    "sealed", "sizeof", "stackalloc", "static", "switch", "throw", "true", "try", "typeof",
    "unchecked", "unsafe", "virtual", "volatile", "while"])]

/-- The reserved words of Visual Basic, in lower case. -/
def visualBasic : Table := [
  (.meKeyword, ["me"]),
  (.myBaseKeyword, ["mybase"]),
  (.myClassKeyword, ["myclass"]),
  (.importsKeyword, ["imports"]),
  (.namespaceKeyword, ["namespace"]),
  (.typeKeyword, ["class", "structure", "module", "interface", "enum"]),
  (.newKeyword, ["new"]),
  (.subKeyword, ["sub"]),
  (.functionKeyword, ["function"]),
  (.endKeyword, ["end"]),
  (.asKeyword, ["as"]),
  (.dimKeyword, ["dim", "const", "static"]),
  (.predefinedTypeKeyword, [
    "boolean", "byte", "char", "date", "decimal", "double", "integer", "long", "object", "sbyte",
    "short", "single", "string", "uinteger", "ulong", "ushort"]),
  (.keyword, [
    "addhandler", "addressof", "alias", "and", "andalso", "byref", "byval", "call", "case",
    "catch", "cbool", "cbyte", "cchar", "cdate", "cdbl", "cdec", "cint", "clng", "cobj",
    "continue", "csbyte", "cshort", "csng", "cstr", "ctype", "cuint", "culng", "cushort",
    "declare", "default", "delegate", "directcast", "do", "each", "else", "elseif", "erase",
    "error", "event", "exit", "false", "finally", "for", "friend", "get", "gettype", "global",
    "goto", "handles", "if", "implements", "in", "inherits", "is", "isnot", "let", "lib", "like",
    "loop", "mod", "mustinherit", "mustoverride", "narrowing", "next", "not", "nothing",
    "notinheritable", "notoverridable", "of", "on", "operator", "option", "optional", "or",
    "orelse", "overloads", "overridable", "overrides", "paramarray", "partial", "private",
    "property", "protected", "public", "raiseevent", "readonly", "redim", "removehandler",
    "resume", "return", "select", "set", "shadows", "shared", "step", "stop", "synclock", "then",
    "throw", "to", "true", "try", "trycast", "typeof", "using", "wend", "when", "while",
    "widening", "with", "withevents", "writeonly", "xor"])]

/-- The kind of a word in a table. -/
def Table.kind? (t : Table) (word : Text) : Option TokenKind :=
  (t.find? fun e => e.2.contains (String.ofList word)).map (·.1)

/-- The kind of a reserved word. -/
def kind? : Language → Text → Option TokenKind
  | .csharp, word => csharp.kind? word
  | .visualBasic, word => visualBasic.kind? word.asciiLower

/-- The word names a directive. -/
def isDirective : Language → Text → Bool
  | .csharp, word =>
    [ "define", "undef", "if", "elif", "else", "endif", "region", "endregion", "pragma",
      "warning", "error", "line", "nullable" ].contains (String.ofList word)
  | .visualBasic, word =>
    [ "if", "elseif", "else", "end", "const", "region", "externalsource", "externalchecksum",
      "disable", "enable", "warning" ].contains (String.ofList word.asciiLower)

/-- The word names a directive whose line goes on as free text. Visual Basic has none. -/
def isMessageDirective : Language → Text → Bool
  | .csharp, word =>
    [ "region", "endregion", "pragma", "warning", "error", "line", "nullable" ].contains
      (String.ofList word)
  | .visualBasic, _ => false

end Xref.Keyword
