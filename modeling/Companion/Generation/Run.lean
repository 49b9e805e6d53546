import Companion.Generation.Delivery
import Companion.Generation.Log
import Companion.Manifest.Document

/-!
# Runs from a manifest to its units

* `compileManifest`: the consistent compilation of a manifest.
* `generateFromText`, `Disk.generateFromFile`: the units of a manifest.
* `Disk.generateToDirectory`: writes them to a directory.
* `runLog`, `Disk.fileRunLog`: what is reported up to the point where the units are there.
-/

namespace Companion

/-- The consistent compilation of a manifest. -/
def compileManifest (text : String) : Except GenerationError Compilation :=
  match Compilation.ofManifest text with
  | .error problem => .error (.manifest problem)
  | .ok c =>
    match c.check with
    | .error found => .error (.model found)
    | .ok _ => .ok c

/-- The units of a manifest. -/
def generateFromText (settings : Settings) (text : String) :
    Except GenerationError (List SourceUnit) :=
  (compileManifest text).map (·.generate settings)

/-- What is reported while the units of a manifest are generated.  A text that is no manifest is
not reported, an inconsistent compilation is reported as read. -/
def runLog (settings : Settings) (text : String) : List LogEntry :=
  match Compilation.ofManifest text with
  | .error _ => []
  | .ok c =>
    match c.check with
    | .error _ => c.readLog
    | .ok _ => c.readLog ++ c.passLog settings

namespace Disk

variable {σ : Type}

/-- The units of a manifest in a file. -/
def generateFromFile (disk : Disk σ) (settings : Settings) (path : String) (state : σ) :
    Except GenerationError (List SourceUnit) :=
  match disk.readText path state with
  | .error problem => .error (.file problem)
  | .ok text => generateFromText settings text

/-- What is reported while the units of a manifest in a file are generated. -/
def fileRunLog (disk : Disk σ) (settings : Settings) (path : String) (state : σ) :
    List LogEntry :=
  match disk.readText path state with
  | .error _ => []
  | .ok text => runLog settings text

/-- Writes the units of a manifest in a file to a directory, up to the first one that is refused.
On success the answer is the list of the written paths. -/
def generateToDirectory (disk : Disk σ) (settings : Settings) (manifest directory : String)
    (state : σ) : Except GenerationError (List String) × Delivery σ :=
  match disk.generateFromFile settings manifest state with
  | .error problem => (.error problem, { disk := state })
  | .ok units =>
    match (disk.directorySink directory settings.extension).feed units { disk := state } with
    | (.error problem, delivery) => (.error problem, delivery)
    | (.ok _, delivery) => (.ok delivery.written, delivery)

end Disk

end Companion
