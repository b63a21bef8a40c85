/-!
# Failures

What can go wrong when a cache is built or searched. A cancelled operation is abandoned by its
caller; it is no fault of anything, and its outcome is never kept.
-/

namespace Xref

/-- What was being fetched from a document. -/
inductive Stage
  | text
  | semanticModel
  | syntaxRoot
  | index
  deriving DecidableEq

/-- The words for a stage. -/
def Stage.name : Stage → String
  | .text => "text"
  | .semanticModel => "semantic model"
  | .syntaxRoot => "syntax root"
  | .index => "identifier index"

/-- The versions of the four artifacts of a document. -/
structure Versions where
  text : Nat
  semanticModel : Nat
  syntaxRoot : Nat
  index : Nat
  deriving DecidableEq

/-- The four artifacts are of one version. -/
def Versions.agree (v : Versions) : Bool :=
  v.text == v.semanticModel && v.text == v.syntaxRoot && v.text == v.index

/-- Why an operation has no result. -/
inductive Failure
  | cancelled
  | fetch (document : String) (stage : Stage) (message : String)
  | versionSkew (document : String) (versions : Versions)
  | abandoned (document : String)
  deriving DecidableEq

namespace Failure

/-- A version, as in `v3`. -/
def version (n : Nat) : String :=
  "v" ++ toString n

/-- The sentence that tells a failure. -/
def message : Failure → String
  | cancelled => "operation cancelled"
  | fetch document stage message =>
    "failed to fetch " ++ stage.name ++ " for '" ++ document ++ "': " ++ message
  | versionSkew document v =>
    "artifacts for '" ++ document ++ "' disagree on version: text " ++ version v.text ++
      ", semantic model " ++ version v.semanticModel ++ ", syntax root " ++ version v.syntaxRoot ++
      ", index " ++ version v.index
  | abandoned document => "reference cache build for '" ++ document ++ "' stopped without a result"

end Failure

/-- Fails once the operation is cancelled. -/
def checkCancelled (cancelled : Bool) : Except Failure Unit :=
  if cancelled then .error .cancelled else .ok ()

end Xref
