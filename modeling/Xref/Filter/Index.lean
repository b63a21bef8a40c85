import Xref.Filter.Bloom
import Xref.Text.Order
import Xref.Tree.Basic

/-!
# Identifier indexes

The index of a tree remembers which names occur in it: in one filter every name, in another the
names that occur with an escape, whose spelling in the text is not the name itself. Names are
remembered in the form that all spellings of a name share.
-/

namespace Xref

/-- The names of a tree, as far as two filters can tell. -/
structure Index where
  seeds : Seeds
  language : Language
  version : Nat
  names : Bloom
  escaped : Bloom
  /-- The number of different names. -/
  nameCount : Nat
  /-- The number of different names that occur with an escape. -/
  escapedCount : Nat

namespace Index

/-- The rate of errors where none is asked for. -/
def defaultRate : Float := 0.01

/-- The names of a tree in normal form. -/
def namesOf (t : Tree) : List Text :=
  (t.tokens.toList.filter fun p => p.token.isIdentifier).map fun p =>
    t.language.normalize p.token.value

/-- The names of a tree that occur with an escape, in normal form. -/
def escapedOf (t : Tree) : List Text :=
  (t.tokens.toList.filter fun p => p.token.isIdentifier && p.token.text != p.token.value).map
    fun p => t.language.normalize p.token.value

/-- A filter over names at a rate of errors. -/
def filterOf (f : Seeds) (rate : Float) (ss : List Text) : Bloom :=
  (Bloom.sized ss.length rate).insertAll f ss

/-- The index of a tree at a rate of errors. -/
def build (f : Seeds) (t : Tree) (rate : Float) : Index :=
  let names := Text.distinct (namesOf t)
  let escaped := Text.distinct (escapedOf t)
  { seeds := f, language := t.language, version := t.version,
    names := filterOf f rate names, escaped := filterOf f rate escaped,
    nameCount := names.length, escapedCount := escaped.length }

/-- Whether the name may occur. -/
def mayHold (x : Index) (name : Text) : Bool :=
  x.names.mem x.seeds (x.language.normalize name)

/-- Whether the name may occur with an escape. -/
def mayHoldEscaped (x : Index) (name : Text) : Bool :=
  x.escapedCount > 0 && x.escaped.mem x.seeds (x.language.normalize name)

end Index

end Xref
