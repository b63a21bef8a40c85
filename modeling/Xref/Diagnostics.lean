import Xref.Cache.Artifacts
import Xref.Cache.Memo

/-!
# Diagnostics

One line about each part of the library, for logs. A part with fields is shown as a record: its
name and, between braces, what there is to say of it. Tokens, nodes and pieces of trivia are shown
by kind and place, tokens with their text as well.
-/

namespace Xref.Diagnostics

/-- A record with its fields. -/
def record (name : String) (fields : List (String × String)) : String :=
  name ++ " \x7b " ++ ", ".intercalate (fields.map fun f => f.1 ++ ": " ++ f.2) ++ " \x7d"

/-- A text between quotation marks. -/
def quoted (s : String) : String :=
  String.ofList (Text.quote s.toList)

/-- A version. -/
def version (n : Nat) : String :=
  "VersionStamp(" ++ toString n ++ ")"

/-- A language, as one word. -/
def language : Language → String
  | .csharp => "CSharp"
  | .visualBasic => "VisualBasic"

/-- A comparison, as one word. -/
def comparison : Comparison → String
  | .ordinal => "Ordinal"
  | .ignoreCase => "IgnoreCase"

/-- A kind and a place. -/
def placed (kind : String) (span : Span) : String :=
  kind ++ "@" ++ span.render

/-- The nodes of a tree by number. -/
def nodes (t : Tree) : List String :=
  List.zipWith (fun p x => placed p.kind.name x.span) t.nodes.toList t.extents

def token (t : Token) : String :=
  placed t.kind.name t.span ++ " " ++ String.ofList (Text.quote t.text) ++
    (if t.isMissing then " (missing)" else "")

def piece (p : Piece) : String :=
  placed p.kind.name p.span

def sourceText (s : SourceText) : String :=
  record "SourceText"
    [("len", toString s.size), ("lines", toString s.table.size), ("version", version s.version)]

def tree (t : Tree) : String :=
  record "SyntaxTree"
    [("language", language t.language), ("version", version t.version),
      ("nodes", toString t.nodes.size), ("tokens", toString t.tokens.size)]

def model (m : Model) : String :=
  record "DocumentSemanticModel"
    [("language", language m.tree.language), ("version", version m.tree.version),
      ("symbols", toString m.symbols.length),
      ("options", record "SemanticOptions" [("nullable_analysis", toString m.nullable)])]

/-- A document: a named source text. -/
def document (name : String) (l : Language) (s : SourceText) : String :=
  record "SourceDocument"
    [("name", quoted name), ("language", language l), ("version", version s.version),
      ("len", toString s.size)]

/-- A cache: what it is made over, and how many names it remembers. -/
def cache (a : Artifacts) (m : Memo) : String :=
  record "ReferenceCache"
    [("name", quoted a.name), ("language", quoted a.languageName),
      ("version", version a.source.version), ("comparison", comparison a.comparison),
      ("memoized_identifiers", toString m.tokens.length)]

/-- The facts of a language. -/
def facts (l : Language) : String :=
  language l ++ "SyntaxFacts"

/-- What a document holds for its managers. -/
def slot (caches : Nat) : String :=
  record "CacheSlot" [("caches", toString caches)]

/-- A manager: its entries, and after how many insertions it looks for dead ones. -/
def manager (entries interval : Nat) : String :=
  record "ReferenceCacheManager"
    [("entries", toString entries), ("sweep_interval", toString interval)]

end Xref.Diagnostics
