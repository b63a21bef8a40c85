/-!
# Kinds of tokens, trivia and nodes

Three kinds of things make up a tree: tokens, the trivia around them, and nodes over them. Both
languages share the kinds; a kind of one language only never arises in the other.
-/

namespace Xref

/-- What a token is. -/
inductive TokenKind
  /-- A name; words that are reserved in some places only are names too. -/
  | identifier
  /-- The token `this`. -/
  | thisKeyword
  /-- The token `base`. -/
  | baseKeyword
  /-- The token `Me`. -/
  | meKeyword
  /-- The token `MyBase`. -/
  | myBaseKeyword
  /-- The token `MyClass`. -/
  | myClassKeyword
  /-- The token `using`. -/
  | usingKeyword
  /-- The token `Imports`. -/
  | importsKeyword
  /-- The token `namespace`. -/
  | namespaceKeyword
  /-- The token `class`, `struct`, `interface`, `enum`, `Structure`, `Module`. -/
  | typeKeyword
  /-- The token `new`. -/
  | newKeyword
  /-- The token `Sub`. -/
  | subKeyword
  /-- The token `Function`. -/
  | functionKeyword
  /-- The token `End`. -/
  | endKeyword
  /-- The token `As`. -/
  | asKeyword
  /-- The token `Dim`, `Const`, `Static`. -/
  | dimKeyword
  /-- The name of a built-in type. -/
  | predefinedTypeKeyword
  /-- Any other reserved word. -/
  | keyword
  /-- A number. -/
  | numericLiteral
  /-- A string of any form. -/
  | stringLiteral
  /-- A character. -/
  | characterLiteral
  /-- The token `(`. -/
  | openParen
  /-- The token `)`. -/
  | closeParen
  /-- An opening brace. -/
  | openBrace
  /-- A closing brace. -/
  | closeBrace
  /-- The token `[`. -/
  | openBracket
  /-- The token `]`. -/
  | closeBracket
  /-- The token `;`. -/
  | semicolon
  /-- The token `,`. -/
  | comma
  /-- The token `.`. -/
  | dot
  /-- The token `:`. -/
  | colon
  /-- The token `=`. -/
  | equals
  /-- The token `=>`. -/
  | arrow
  /-- The `#` that opens a directive. -/
  | hash
  /-- Any other operator or mark. -/
  | operator
  /-- The empty token that closes a directive. -/
  | endOfDirective
  /-- A character that begins no token. -/
  | badToken
  /-- The empty token at the end of the text. -/
  | endOfFile
  deriving DecidableEq, Inhabited

/-- What a piece of trivia is. -/
inductive TriviaKind
  /-- Blanks within a line. -/
  | whitespace
  /-- A line break. -/
  | endOfLine
  /-- A comment up to the end of its line. -/
  | lineComment
  /-- A comment between its own marks. -/
  | blockComment
  /-- The underscore that joins a line to the next. -/
  | lineContinuation
  /-- The free text of a directive. -/
  | message
  /-- A directive. -/
  | directive
  deriving DecidableEq, Inhabited

/-- What a node is. -/
inductive NodeKind
  /-- The root of every tree. -/
  | compilationUnit
  /-- An import, with or without an alias. -/
  | usingDirective
  /-- The alias of an import and its `=`. -/
  | nameEquals
  /-- A name that refers. -/
  | identifierName
  /-- A name that declares. -/
  | declarator
  /-- A namespace. -/
  | namespaceDeclaration
  /-- A type of any form. -/
  | classDeclaration
  /-- A constructor. -/
  | constructorDeclaration
  /-- The call of another constructor at the head of a constructor. -/
  | constructorInitializer
  /-- A `Sub` or `Function`. -/
  | methodDeclaration
  /-- Any other member of a type. -/
  | memberDeclaration
  /-- The parameters of a declaration. -/
  | parameterList
  /-- The arguments of a constructor initializer. -/
  | argumentList
  /-- A block between braces. -/
  | block
  /-- A statement, or a logical line. -/
  | statement
  /-- A directive. -/
  | directive
  deriving DecidableEq, Inhabited

namespace TokenKind

/-- Every kind with its name. -/
def table : List (TokenKind × String) := [
  (.identifier, "Identifier"),
  (.thisKeyword, "ThisKeyword"),
  (.baseKeyword, "BaseKeyword"),
  (.meKeyword, "MeKeyword"),
  (.myBaseKeyword, "MyBaseKeyword"),
  (.myClassKeyword, "MyClassKeyword"),
  (.usingKeyword, "UsingKeyword"),
  (.importsKeyword, "ImportsKeyword"),
  (.namespaceKeyword, "NamespaceKeyword"),
  (.typeKeyword, "TypeKeyword"),
  (.newKeyword, "NewKeyword"),
  (.subKeyword, "SubKeyword"),
  (.functionKeyword, "FunctionKeyword"),
  (.endKeyword, "EndKeyword"),
  (.asKeyword, "AsKeyword"),
  (.dimKeyword, "DimKeyword"),
  (.predefinedTypeKeyword, "PredefinedTypeKeyword"),
  (.keyword, "Keyword"),
  (.numericLiteral, "NumericLiteral"),
  (.stringLiteral, "StringLiteral"),
  (.characterLiteral, "CharacterLiteral"),
  (.openParen, "OpenParen"),
  (.closeParen, "CloseParen"),
  (.openBrace, "OpenBrace"),
  (.closeBrace, "CloseBrace"),
  (.openBracket, "OpenBracket"),
  (.closeBracket, "CloseBracket"),
  (.semicolon, "Semicolon"),
  (.comma, "Comma"),
  (.dot, "Dot"),
  (.colon, "Colon"),
  (.equals, "Equals"),
  (.arrow, "Arrow"),
  (.hash, "Hash"),
  (.operator, "Operator"),
  (.endOfDirective, "EndOfDirective"),
  (.badToken, "BadToken"),
  (.endOfFile, "EndOfFile")]

/-- The name of a kind. -/
def name (k : TokenKind) : String :=
  ((table.find? fun e => e.1 == k).map (·.2)).getD ""

/-- The kind of a name. -/
def ofName? (s : String) : Option TokenKind :=
  (table.find? fun e => e.2 == s).map (·.1)

/-- A reserved word of either language. -/
def isKeyword : TokenKind → Bool
  | .thisKeyword | .baseKeyword | .meKeyword | .myBaseKeyword | .myClassKeyword
  | .usingKeyword | .importsKeyword | .namespaceKeyword | .typeKeyword | .newKeyword
  | .subKeyword | .functionKeyword | .endKeyword | .asKeyword | .dimKeyword
  | .predefinedTypeKeyword | .keyword => true
  | _ => false

end TokenKind

namespace TriviaKind

/-- Every kind with its name. -/
def table : List (TriviaKind × String) := [
  (.whitespace, "WhitespaceTrivia"),
  (.endOfLine, "EndOfLineTrivia"),
  (.lineComment, "SingleLineCommentTrivia"),
  (.blockComment, "MultiLineCommentTrivia"),
  (.lineContinuation, "LineContinuationTrivia"),
  (.message, "PreprocessingMessageTrivia"),
  (.directive, "DirectiveTrivia")]

/-- The name of a kind. -/
def name (k : TriviaKind) : String :=
  ((table.find? fun e => e.1 == k).map (·.2)).getD ""

/-- The kind of a name. -/
def ofName? (s : String) : Option TriviaKind :=
  (table.find? fun e => e.2 == s).map (·.1)

/-- A comment. -/
def isComment : TriviaKind → Bool
  | .lineComment | .blockComment => true
  | _ => false

end TriviaKind

namespace NodeKind

/-- Every kind with its name. -/
def table : List (NodeKind × String) := [
  (.compilationUnit, "CompilationUnit"),
  (.usingDirective, "UsingDirective"),
  (.nameEquals, "NameEquals"),
  (.identifierName, "IdentifierName"),
  (.declarator, "Declarator"),
  (.namespaceDeclaration, "NamespaceDeclaration"),
  (.classDeclaration, "ClassDeclaration"),
  (.constructorDeclaration, "ConstructorDeclaration"),
  (.constructorInitializer, "ConstructorInitializer"),
  (.methodDeclaration, "MethodDeclaration"),
  (.memberDeclaration, "MemberDeclaration"),
  (.parameterList, "ParameterList"),
  (.argumentList, "ArgumentList"),
  (.block, "Block"),
  (.statement, "Statement"),
  (.directive, "Directive")]

/-- The name of a kind. -/
def name (k : NodeKind) : String :=
  ((table.find? fun e => e.1 == k).map (·.2)).getD ""

/-- The kind of a name. -/
def ofName? (s : String) : Option NodeKind :=
  (table.find? fun e => e.2 == s).map (·.1)

end NodeKind

end Xref
