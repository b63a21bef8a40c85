import Xref.Facts
import Xref.Failure
import Xref.Search.Strategy
import Xref.Symbols.Model
import Xref.Text.Quoted

/-!
# Artifacts

What a cache is made over: the text, the semantic model, the tree and the index of a document.
They are fetched one by one, so they may turn out to be of different versions, and the model may
report a language whose names nobody knows how to compare; then no cache is made over them.

How names compare follows the language that the model reports; the facts of syntax follow the
language of the tree.
-/

namespace Xref

/-- What is said of a language whose names cannot be compared. -/
def Comparison.unsupported (languageName : String) : String :=
  "unsupported language for identifier comparison: " ++
    String.ofList (Text.quote languageName.toList)

/-- What has been fetched from a document. -/
structure Fetched where
  /-- The name of the document. -/
  name : String
  source : SourceText
  model : Model
  /-- The name of the language that the model reports. -/
  languageName : String
  tree : Tree
  index : Index

namespace Fetched

/-- The versions of what has been fetched. -/
def versions (x : Fetched) : Versions :=
  ⟨x.source.version, x.model.tree.version, x.tree.version, x.index.version⟩

/-- All there is to fetch about a tree. The model is built without nullability, since references do
not depend on it. -/
def ofTree (name : String) (tree : Tree) : Fetched :=
  { name, source := tree.source, model := .build tree false, languageName := tree.language.name,
    tree, index := .build .standard tree Index.defaultRate }

/-- What is fetched about a tree is of the version of the tree. -/
theorem agree_ofTree (name : String) (tree : Tree) : (ofTree name tree).versions.agree = true := by
  simp [ofTree, versions, Versions.agree, Model.build, Index.build, Tree.version]

end Fetched

/-- What a cache is made over, with the comparison for the language that the model reports. -/
structure Artifacts extends Fetched where
  comparison : Comparison
  comparison_eq : Comparison.ofName? languageName = some comparison

namespace Artifacts

/-- The artifacts of a document, unless the names of the reported language cannot be compared. -/
def make? (x : Fetched) : Option Artifacts :=
  match h : Comparison.ofName? x.languageName with
  | none => none
  | some c => some { x with comparison := c, comparison_eq := h }

/-- Names of a language compare as the name of the language tells. -/
theorem ofName?_name (l : Language) :
    Comparison.ofName? l.name = some (Comparison.ofLanguage l) := by
  cases l <;> rfl

/-- The artifacts of a document that has only been parsed. -/
def ofTree (name : String) (tree : Tree) : Artifacts :=
  { Fetched.ofTree name tree with
    comparison := .ofLanguage tree.language, comparison_eq := ofName?_name tree.language }

/-- The language whose facts of syntax hold. -/
def facts (a : Artifacts) : Language :=
  a.tree.language

end Artifacts

end Xref
