/-!
# File trees

A directory held in memory, and the regular file that a path relative to it leads to.
-/

namespace SqlForest

/-- What a name in a directory stands for. -/
inductive FileTree.Entry
  | file (content : ByteArray)
  | directory

/-- The entries below a directory.  Each is given by the names that lead to it. -/
structure FileTree where
  entries : List (List String × FileTree.Entry)

namespace FileTree

/-- The directory without entries. -/
def empty : FileTree :=
  ⟨[]⟩

/-- The names in a path.  Empty names and single periods are left out: they stay where they are. -/
def names (path : String) : List String :=
  (path.splitOn "/").filter fun name => name ≠ "" ∧ name ≠ "."

/-- Adds an entry, which hides an earlier one of the same path. -/
def add (t : FileTree) (path : String) (entry : Entry) : FileTree :=
  ⟨(names path, entry) :: t.entries⟩

/-- The entry that names lead to.  A directory with an entry below it is there without being added
itself. -/
def entry? (t : FileTree) (place : List String) : Option Entry :=
  match t.entries.lookup place with
  | some entry => some entry
  | none => if t.entries.any fun (names, _) => place.isPrefixOf names then some .directory else none

/-- Follows names from a directory, given by the names that lead to it, the last one first.  A file
is reached by the last name only, and a directory that is left again must exist.  The parent of the
whole tree is not part of it. -/
def walk (t : FileTree) (place : List String) : List String → Option ByteArray
  | [] => none
  | name :: rest =>
    if name = "" ∨ name = "." then t.walk place rest
    else if name = ".." then
      match place with
      | [] => none
      | _ :: parent => t.walk parent rest
    else
      match t.entry? (name :: place).reverse with
      | some .directory => t.walk (name :: place) rest
      | some (.file content) => if rest.isEmpty then some content else none
      | none => none

/-- The content of the regular file that a path leads to.  A path from the root of the file system
leads out of the tree. -/
def find? (t : FileTree) (path : String) : Option ByteArray :=
  match path.splitOn "/" with
  | "" :: _ => none
  | names => t.walk [] names

end FileTree

end SqlForest
