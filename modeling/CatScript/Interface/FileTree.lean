import CatScript.Interface.Path

/-!
# Trees of files

A tree of files and directories, and what a path leads to in it. A tree grows by one file or
directory at a time: what is put where a file stands replaces its bytes, and nothing becomes a
directory that is a file, or the other way round.

A path is read name by name: `.` and an empty name stay where they are, `..` goes up, and all of
them as well as every further name need a directory to start from. A path that is too long, that
begins at the root of the file system, or that goes above the tree, leads to nothing.
-/

set_option autoImplicit false

namespace CatScript

/-- What a path leads to. -/
inductive FileStatus
  | missing
  | unreadable (reason : String)
  | contents (bytes : ByteArray)

/-- Files and directories by their paths from a common directory. A directory has no bytes. -/
structure FileTree where
  entries : List (List String × Option ByteArray)

namespace FileTree

/-- A common directory with nothing in it. -/
def empty : FileTree := ⟨[]⟩

/-- What stands at a path from the common directory, which stands there itself. -/
def entry? (tree : FileTree) (path : List String) : Option (Option ByteArray) :=
  if path.isEmpty then some none else (tree.entries.find? (·.1 = path)).map Prod.snd

/-- Whether a path from the common directory is one of a directory. -/
def isDirectory (tree : FileTree) (path : List String) : Bool :=
  match tree.entry? path with
  | some none => true
  | _ => false

/-- The bytes of the file at a path from the common directory. -/
def file? (tree : FileTree) (path : List String) : Option ByteArray :=
  (tree.entry? path).bind id

/-- The tree with directories on the way that names lead from a directory, as far as no file stands
in it. -/
def withDirectories (tree : FileTree) (place : List String) : List String → FileTree
  | [] => tree
  | name :: rest =>
    let next := place ++ [name]
    match tree.entry? next with
    | none => withDirectories ⟨(next, none) :: tree.entries⟩ next rest
    | some none => withDirectories tree next rest
    | some (some _) => tree

/-- The tree with a file at a path, and directories on the way to it. -/
def withFile (tree : FileTree) (path : List String) (bytes : ByteArray) : FileTree :=
  let tree := tree.withDirectories [] path.dropLast
  if tree.isDirectory path.dropLast = true ∧ tree.isDirectory path = false then
    ⟨(path, some bytes) :: tree.entries.filter (·.1 ≠ path)⟩
  else tree

/-- The tree with a file, or with a directory if there are no bytes, at a relative path. -/
def withPath (tree : FileTree) (path : String) (bytes : Option ByteArray) : FileTree :=
  let names := (Path.names path).filter fun name => name ≠ "" ∧ name ≠ "."
  match bytes with
  | some bytes => tree.withFile names bytes
  | none => tree.withDirectories [] names

/-- The tree of the files with the given relative paths, put there one after the other. -/
def ofPaths (files : List (String × Option ByteArray)) : FileTree :=
  files.foldl (fun tree file => tree.withPath file.1 file.2) empty

/-- Where further names lead from a directory or file. -/
def follow (tree : FileTree) (place : List String) : List String → Option (List String)
  | [] => some place
  | name :: rest =>
    if tree.isDirectory place then
      if name = "" ∨ name = "." then tree.follow place rest
      else if name = ".." then
        if place.isEmpty then none else tree.follow place.dropLast rest
      else tree.follow (place ++ [name]) rest
    else none

/-- What a path leads to. -/
def status (tree : FileTree) (path : String) : FileStatus :=
  if path.toList.head? = some '/' ∨ path = "" ∨ Path.longest < path.utf8ByteSize then .missing
  else
    match tree.follow [] (Path.names path) with
    | none => .missing
    | some place =>
      match tree.file? place with
      | some bytes => .contents bytes
      | none =>
        if tree.isDirectory place then .unreadable "Is a directory (os error 21)" else .missing

end FileTree

end CatScript
