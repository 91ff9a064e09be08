import CatScript.Model.Text.Lines

/-!
# Paths

A path is a list of names with slashes between them. The extension of what it names is what stands
behind the last dot of the last name.
-/

set_option autoImplicit false

namespace CatScript

/-- The names of a path, in order. -/
def Path.names (path : String) : List String :=
  (Text.split '/' path.toList).map String.ofList

namespace Path

/-- The number of bytes of the longest path that a file system follows. -/
def longest : Nat := 4095

/-- The last name of a path, if that is the name of something. Trailing slashes and dots that stay
where they are do not count. -/
def fileName? (path : String) : Option String :=
  match ((names path).filter fun name => name ≠ "" ∧ name ≠ ".").getLast? with
  | some name => if name = ".." then none else some name
  | none => none

/-- What stands behind the last dot of a name, if something stands before it. -/
def extensionOf? (name : String) : Option String :=
  let reversed := name.toList.reverse
  match reversed.dropWhile (· ≠ '.') with
  | '.' :: _ :: _ => some (String.ofList (reversed.takeWhile (· ≠ '.')).reverse)
  | _ => none

/-- The extension of the file that a path names. -/
def extension? (path : String) : Option String := (fileName? path).bind extensionOf?

end Path

end CatScript
