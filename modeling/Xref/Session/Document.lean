import Xref.Cache.Artifacts
import Xref.Tree.Parse

/-!
# Documents of a session

A document gives out four artifacts: its text, a semantic model, its tree and its index. The tree,
the models and the index are made when they are first asked for, and kept; whoever asks for one
that is there gets it even after having cancelled.

To show what becomes of a fetch, a document counts those that have begun. It can be told to fail
the next fetch of an artifact, to make its index from a copy of the text with another version, to
have its models report another language, and to keep builds waiting behind a gate.
-/

namespace Xref.Session

/-- A number for each artifact. -/
structure Fetches where
  text : Nat := 0
  semanticModel : Nat := 0
  syntaxRoot : Nat := 0
  index : Nat := 0
  deriving DecidableEq

/-- One more fetch. -/
def Fetches.add (n : Fetches) : Stage → Fetches
  | .text => { n with text := n.text + 1 }
  | .semanticModel => { n with semanticModel := n.semanticModel + 1 }
  | .syntaxRoot => { n with syntaxRoot := n.syntaxRoot + 1 }
  | .index => { n with index := n.index + 1 }

/-- Which artifacts have been made. -/
structure Made where
  tree : Bool := false
  /-- The model with nullability. -/
  fullModel : Bool := false
  /-- The model without, which is the one that builds ask for. -/
  plainModel : Bool := false
  index : Bool := false
  deriving DecidableEq

/-- A document of a session. -/
structure Document where
  name : String
  tree : Tree
  /-- The version of the copy that the index is made from. -/
  indexVersion : Option Nat
  /-- The language that the models report instead of their own. -/
  languageName : Option String
  /-- Fetches of builds go on. -/
  isOpen : Bool
  /-- The session has the document; otherwise only requests and builds have. -/
  isHeld : Bool := true
  /-- Nobody has the document. -/
  isGone : Bool := false
  /-- The artifacts whose next fetch fails. -/
  failing : List Stage := []
  fetches : Fetches := {}
  made : Made := {}

namespace Document

/-! ## Artifacts -/

/-- The language that the models report. -/
def reportedLanguage (d : Document) : String :=
  d.languageName.getD d.tree.language.name

/-- The index. -/
def index (d : Document) : Index :=
  match d.indexVersion with
  | none => .build .standard d.tree Index.defaultRate
  | some v =>
    .build .standard (.parse d.tree.language (.ofText d.tree.source.chars v)) Index.defaultRate

/-- What a build fetches. -/
def fetched (d : Document) : Fetched :=
  { name := d.name, source := d.tree.source, model := .build d.tree false,
    languageName := d.reportedLanguage, tree := d.tree, index := d.index }

/-- The artifacts that a build fetches. -/
def stages : List Stage := [.text, .semanticModel, .syntaxRoot, .index]

/-- A build need not wait for the artifact to be made. Nothing has to be made for the text, and an
index from a copy is made on the spot. -/
def isThere (d : Document) : Stage → Bool
  | .text => true
  | .semanticModel => d.made.plainModel
  | .syntaxRoot => d.made.tree
  | .index => d.made.index || d.indexVersion.isSome

/-- A build need not wait for any artifact. -/
def isReady (d : Document) : Bool :=
  stages.all d.isThere

/-- With everything made that a build asks for. -/
def makeAll (d : Document) : Document :=
  { d with made := { d.made with
      tree := true, plainModel := true, index := d.made.index || d.indexVersion.isNone } }

/-! ## Fetches -/

/-- A fetch from a document. -/
abbrev Fetch (α : Type) := ExceptT Failure (StateM Document) α

/-- Fails once the fetch is cancelled. -/
def check (isCancelled : Bool) : Fetch Unit :=
  fun d => (checkCancelled isCancelled, d)

/-- Begins to fetch an artifact, which fails if the document has been told so. -/
def begin (s : Stage) : Fetch Unit := do
  let d ← get
  set { d with fetches := d.fetches.add s, failing := d.failing.filter fun t => t != s }
  if d.failing.contains s then throw (.fetch d.name s "injected failure")

/-- Makes an artifact, unless it is there. -/
def make (isMade : Made → Bool) (f : Made → Made) (first : Fetch Unit) (isCancelled : Bool) :
    Fetch Unit := do
  if isMade (← get).made then return
  first
  check isCancelled
  modify fun d => { d with made := f d.made }

/-- Makes the tree. -/
def makeTree (isCancelled : Bool) : Fetch Unit :=
  make Made.tree (fun m => { m with tree := true }) (pure ()) isCancelled

/-- Fetches the text. Nothing has to be made for it, and a cancelled fetch always fails. -/
def fetchText (isCancelled : Bool) : Fetch SourceText := do
  begin .text
  check isCancelled
  return (← get).tree.source

/-- Fetches the tree. -/
def fetchTree (isCancelled : Bool) : Fetch Tree := do
  begin .syntaxRoot
  makeTree isCancelled
  return (← get).tree

/-- Fetches a semantic model, with nullability or without. -/
def fetchModel (nullable isCancelled : Bool) : Fetch Model := do
  begin .semanticModel
  if nullable then
    make Made.fullModel (fun m => { m with fullModel := true }) (makeTree isCancelled) isCancelled
  else
    make Made.plainModel (fun m => { m with plainModel := true }) (makeTree isCancelled) isCancelled
  return .build (← get).tree nullable

/-- Fetches the index. One from a copy is made every time, and does not ask for the tree. -/
def fetchIndex (isCancelled : Bool) : Fetch Index := do
  begin .index
  if (← get).indexVersion.isNone then
    make Made.index (fun m => { m with index := true }) (makeTree isCancelled) isCancelled
  return (← get).index

/-- The order in which the fetches of a build begin. They take turns: every time that a build has
looked at a closed gate, the one that would have begun first goes to the end. -/
def fetchOrder (looks : Nat) : List Stage :=
  stages.rotateLeft looks

/-- Begins a fetch of a build. A cancelled build does not get the text, nor an artifact that has to
be made, unless others make it already (`isShared`). -/
def beginFor (isCancelled isShared : Bool) (s : Stage) : Fetch Unit := do
  begin s
  check (isCancelled && (s == .text || !((← get).isThere s || isShared)))

/-- Begins the fetches of a build; the first that fails ends it. -/
def beginAll (looks : Nat) (isCancelled isShared : Bool) : Fetch Unit :=
  (fetchOrder looks).forM (beginFor isCancelled isShared)

end Document

end Xref.Session
