import Companion.Files.Error

/-!
# A tree of files

A file system that is a value.

* `FileTree`: a directory with all it holds.
* `FileTree.find?`, `FileTree.put`: what a directory holds under a name (`FileTree.find?_put`).
* `FileTree.listing`: everything in a directory, however deep.
-/

namespace Companion

/-! ### Content -/

/-- The content of a file. -/
inductive FileContent
  | text (content : String)
  /-- Bytes that are no text. -/
  | binary (bytes : List UInt8)
  deriving DecidableEq, Repr

/-- The content that consists of the given bytes. -/
def FileContent.ofBytes (bytes : List UInt8) : FileContent :=
  match String.fromUTF8? bytes.toByteArray with
  | some content => .text content
  | none => .binary bytes

/-! ### Directories -/

/-- A directory with all it holds, entry after entry. -/
inductive FileTree
  | empty
  | file (name : String) (content : FileContent) (rest : FileTree)
  | directory (name : String) (inner rest : FileTree)
  deriving DecidableEq, Repr

/-- What a directory can hold under a name. -/
inductive FileNode
  | file (content : FileContent)
  | directory (inner : FileTree)
  deriving DecidableEq, Repr

/-- The directory that holds a node under a name in front of the rest. -/
def FileNode.before (node : FileNode) (name : String) (rest : FileTree) : FileTree :=
  match node with
  | .file content => .file name content rest
  | .directory inner => .directory name inner rest

namespace FileTree

/-- What a directory holds under a name. -/
def find? (name : String) : FileTree → Option FileNode
  | .empty => none
  | .file other content rest =>
    if other = name then some (.file content) else rest.find? name
  | .directory other inner rest =>
    if other = name then some (.directory inner) else rest.find? name

/-- Puts a node under a name, in place of what was there. -/
def put (name : String) (node : FileNode) : FileTree → FileTree
  | .empty => node.before name .empty
  | .file other content rest =>
    if other = name then node.before name rest else .file other content (rest.put name node)
  | .directory other inner rest =>
    if other = name then node.before name rest else .directory other inner (rest.put name node)

theorem find?_before (node : FileNode) (name other : String) (rest : FileTree) :
    (node.before name rest).find? other =
      if name = other then some node else rest.find? other := by
  cases node <;> rfl

/-- Only the name that is put leads to something else. -/
theorem find?_put (tree : FileTree) (name other : String) (node : FileNode) :
    (tree.put name node).find? other = if name = other then some node else tree.find? other := by
  induction tree with
  | empty => exact find?_before node name other .empty
  | file first content rest ih | directory first inner rest _ ih =>
    rw [put]
    split
    · next h => rw [find?_before, find?, h]; split <;> rfl
    · next h =>
      rw [find?, find?, ih]
      split
      · next hf => rw [if_neg (by rintro rfl; exact h hf)]
      · rfl

/-- Nothing changes when a node is put where it is. -/
theorem put_of_find? {tree : FileTree} {name : String} {node : FileNode}
    (h : tree.find? name = some node) : tree.put name node = tree := by
  induction tree with
  | empty => simp [find?] at h
  | file first content rest ih | directory first inner rest _ ih =>
    rw [find?] at h
    rw [put]
    split
    · next hf => rw [if_pos hf] at h; cases h; rw [← hf]; rfl
    · next hf => rw [if_neg hf] at h; rw [ih h]

/-- Everything in a directory, each under the names that lead there from the outside in.  A
directory has no content. -/
def listing (around : List String) : FileTree → List (List String × Option FileContent)
  | .empty => []
  | .file name content rest => (around ++ [name], some content) :: rest.listing around
  | .directory name inner rest =>
    (around ++ [name], none) :: (inner.listing (around ++ [name]) ++ rest.listing around)

end FileTree

end Companion
