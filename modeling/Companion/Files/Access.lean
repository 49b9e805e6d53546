import Companion.Files.Disk
import Companion.Files.Path
import Companion.Files.Spot

/-!
# Access to a tree of files

The tree is what there is to a process that works in its root, so that paths with and without a slash
in front begin at the same place.  It holds files and directories only.  Links, permissions and the room
on the disk are left out, so that no request is refused for any of these.

* `FileTree.parsePath`: which texts are paths.
* `FileTree.readText`, `FileTree.makeDirectories`, `FileTree.write`: the requests.
* `FileTree.disk`: the tree as a disk.
-/

namespace Companion.FileTree

/-! ### Paths -/

/-- The longest path that a request can name, in bytes. -/
def maxPathSize : Nat := 4095

/-- Reads the text of a path, which must not hold NUL, be too long nor be empty. -/
def parsePath (text : String) : Except FileError Path :=
  if '\x00' ∈ text.toList then .error .nulInPath
  else if maxPathSize < text.utf8ByteSize then .error .nameTooLong
  else if text.isEmpty then .error .notFound
  else .ok (Path.ofText text)

/-- The directory that names lead to from the root. -/
def follow (tree : FileTree) (names : List String) : Except FileError Spot :=
  Spot.follow { here := tree } names

/-- Whether a path leads to a directory. -/
def leadsToDirectory (tree : FileTree) (path : Path) : Bool :=
  (tree.follow path.names).isOk

/-- The last name of a path with the directory that it is looked for in.  If the path does not end
in a name of its own the answer is `none`. -/
def place (tree : FileTree) (path : Path) : Except FileError (Option (Spot × String)) :=
  match path.names.getLast? with
  | none => .ok none
  | some name => do
    let spot ← tree.follow path.names.dropLast
    return if Path.isDots name then none else some (spot, name)

/-! ### Reading -/

/-- The content of a file that is to be read. -/
def openFile (tree : FileTree) (path : Path) : Except FileError FileContent := do
  match ← tree.place path with
  | none => .error .isDirectory
  | some (spot, name) =>
    match ← spot.lookup? name with
    | none => .error .notFound
    | some (.directory _) => .error .isDirectory
    | some (.file content) => if path.endsInSlash then .error .notDirectory else .ok content

/-- The text of a file. -/
def readText (tree : FileTree) (text : String) : Except FileError String := do
  match ← tree.openFile (← parsePath text) with
  | .binary _ => .error .notText
  | .text content => .ok content

/-! ### Writing -/

/-- The directory and the name of a file that is to be written. -/
def target (tree : FileTree) (path : Path) : Except FileError (Spot × String) := do
  match ← tree.place path with
  | none => .error .isDirectory
  | some (spot, name) =>
    if path.endsInSlash then .error .isDirectory
    else
      match ← spot.lookup? name with
      | some (.directory _) => .error .isDirectory
      | _ => .ok (spot, name)

/-- Gives a file a new content. -/
def write (tree : FileTree) (text : String) (content : FileContent) :
    Except FileError FileTree := do
  let (spot, name) ← tree.target (← parsePath text)
  return spot.put name (.file content)

/-! ### Making directories -/

/-- Makes one directory. -/
def makeDirectory (tree : FileTree) (path : Path) : Except FileError FileTree := do
  match ← tree.place path with
  | none => .error .exists
  | some (spot, name) =>
    match ← spot.lookup? name with
    | some _ => .error .exists
    | none => .ok (spot.put name (.directory .empty))

/-- The outcome of making a directory that may be there already. -/
def settle (tree : FileTree) (path : Path) :
    Except FileError FileTree → Except FileError Unit × FileTree
  | .ok made => (.ok (), made)
  | .error problem => (if tree.leadsToDirectory path then .ok () else .error problem, tree)

/-- Makes a directory, and if what it lies in is missing makes that first.  What has been made
stays, also when it turns out that the rest cannot be made. -/
def makePath (tree : FileTree) (path : Path) : Except FileError Unit × FileTree :=
  match tree.makeDirectory path with
  | .error .notFound =>
    if path.names = [] then (.error .notFound, tree)
    else
      match tree.makePath path.up with
      | (.error problem, tree) => (.error problem, tree)
      | (.ok _, tree) => tree.settle path (tree.makeDirectory path)
  | outcome => tree.settle path outcome
termination_by path.names.length
decreasing_by
  next h => exact Path.length_up h

/-- Makes a directory and those around it, as far as they are missing.  The empty path asks for
nothing. -/
def makeDirectories (tree : FileTree) (text : String) : Except FileError Unit × FileTree :=
  if text.isEmpty then (.ok (), tree)
  else
    match parsePath text with
    | .error problem => (.error problem, tree)
    | .ok path => tree.makePath path

/-! ### The disk -/

/-- Trees as the states of a disk. -/
def disk : Disk FileTree where
  readText path tree := tree.readText path
  makeDirectories path tree := tree.makeDirectories path
  writeText path text tree :=
    match tree.write path (.text text) with
    | .error problem => (.error problem, tree)
    | .ok written => (.ok (), written)

end Companion.FileTree
