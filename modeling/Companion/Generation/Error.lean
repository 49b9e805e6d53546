import Companion.Files.Error
import Companion.Manifest.Error
import Companion.Model.Consistency

/-!
# Errors of a generation run

* `GenerationError`: where a run went wrong, and `GenerationError.message`: its wording.
-/

namespace Companion

/-- Where a run went wrong. -/
inductive GenerationError
  /-- The text is no manifest. -/
  | manifest (problem : ManifestError)
  /-- The manifest describes an inconsistent compilation. -/
  | model (found : Inconsistency)
  /-- The manifest cannot be read from its file. -/
  | file (problem : FileError)
  /-- The unit with the given key was refused. -/
  | output (key reason : String)
  deriving DecidableEq, Repr

/-- The wording of an error. -/
def GenerationError.message : GenerationError → String
  | .manifest problem => "manifest parse error: " ++ problem.message
  | .model found => "model error: " ++ found.message
  | .file problem => "IO error: " ++ problem.message
  | .output key reason => "output error for '" ++ key ++ "': " ++ reason

end Companion
