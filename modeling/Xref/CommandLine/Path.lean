import Xref.Language

/-!
# Paths

A path is a list of names between slashes. Empty names and names of one dot stand for nothing,
except a dot at the beginning, which is the directory itself. The extension of a path is that of
its last name: what follows the last dot, unless the dot is the first character of the name.
-/

namespace Xref.Path

/-- Stands for nothing inside a path. -/
def isIdle (name : Text) : Bool :=
  name = [] || name = ['.']

/-- The name of the file or directory that a path leads to, if it ends in a name. -/
def fileName? (path : Text) : Option Text :=
  match path.splitAt '/' with
  | [] => none
  | first :: rest =>
    match (rest.filter fun n => !isIdle n).getLast? with
    | some n => if n = ['.', '.'] then none else some n
    | none => if isIdle first || first = ['.', '.'] then none else some first

/-- The extension of a file name, without the dot. -/
def extensionOf? (name : Text) : Option Text :=
  match name with
  | [] => none
  | _ :: rest => if rest.contains '.' then some (Text.afterLast '.' rest) else none

/-- The extension of a path. -/
def extension? (path : Text) : Option Text :=
  (fileName? path).bind extensionOf?

/-- The language that a path tells by its extension. -/
def language? (path : String) : Option Language :=
  (extension? path.toList).bind fun e => Language.ofExtension? (String.ofList e)

example : extension? "src/a.b.cs".toList = some "cs".toList := by decide +kernel
example : extension? ".cs".toList = none := by decide +kernel
example : extension? "a.cs/.".toList = some "cs".toList := by decide +kernel

end Xref.Path
