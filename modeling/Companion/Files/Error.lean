/-!
# What a file system refuses

A few conditions are told apart by name.  A file system may know others, of which only the wording
counts.

* `FileError`: why a file or directory cannot be read, made or written.
* `FileError.message`: its wording.
-/

namespace Companion

/-- Why a file or directory cannot be read, made or written. -/
inductive FileError
  | notFound
  /-- A directory is to be made where something else is. -/
  | exists
  /-- Something that is no directory stands in the middle of the path. -/
  | notDirectory
  /-- A directory is taken for a file. -/
  | isDirectory
  | nameTooLong
  /-- The path holds the character NUL. -/
  | nulInPath
  /-- The content of the file is no text. -/
  | notText
  /-- Any other condition, such as a missing permission or a full disk, in the words of the system. -/
  | other (text : String)
  deriving DecidableEq, Repr

/-- The sentence on a condition that the system has a number for. -/
def FileError.numbered (condition : String) (number : Nat) : String :=
  condition ++ " (os error " ++ toString number ++ ")"

/-- The wording of an error. -/
def FileError.message : FileError → String
  | .notFound => numbered "No such file or directory" 2
  | .exists => numbered "File exists" 17
  | .notDirectory => numbered "Not a directory" 20
  | .isDirectory => numbered "Is a directory" 21
  | .nameTooLong => numbered "File name too long" 36
  | .nulInPath => "file name contained an unexpected NUL byte"
  | .notText => "stream did not contain valid UTF-8"
  | .other text => text

end Companion
