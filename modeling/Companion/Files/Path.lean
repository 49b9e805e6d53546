import Companion.Text.Separated

/-!
# Paths

A path is a text.  A file system reads it as names with slashes between them.

* `Path.join`: a path seen from a directory.
* `Path.ofText`: a path as a file system reads it.
* `Path.up`: the path of what it lies in.
-/

namespace Companion

/-- A path as a file system reads it. -/
structure Path where
  /-- The names from the outside in, none of them empty. -/
  names : List String
  /-- Whether a slash stands behind the last name, as behind the name of a directory. -/
  endsInSlash : Bool
  deriving DecidableEq, Repr

namespace Path

/-- A path seen from a directory.  A path with a slash in front stands for itself. -/
def join (directory path : String) : String :=
  if ['/'].isPrefixOf path.toList then path
  else if directory.isEmpty || directory.toList.getLast? = some '/' then directory ++ path
  else directory ++ "/" ++ path

/-- Reads a path.  More slashes than one count as one. -/
def ofText (text : String) : Path where
  names :=
    let (first, rest) := Text.pieces '/' text.toList
    ((first :: rest).filter (· ≠ [])).map String.ofList
  endsInSlash := text.toList.getLast? = some '/'

/-- Whether a name stands for the directory at hand or the one around it. -/
def isDots (name : String) : Bool :=
  name = "." || name = ".."

/-- The path of what a path lies in.  Names that stand for the directory at hand do not count. -/
def up (path : Path) : Path where
  names := (path.names.filter (· ≠ ".")).dropLast
  endsInSlash := false

/-- The path above is shorter. -/
theorem length_up {path : Path} (h : path.names ≠ []) :
    path.up.names.length < path.names.length := by
  have hf := List.length_filter_le (· ≠ ".") path.names
  have hp := List.length_pos_iff.mpr h
  simp only [up, List.length_dropLast]
  omega

end Path

end Companion
