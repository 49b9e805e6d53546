import Companion.Files.Disk
import Companion.Files.Path
import Companion.Generation.Error
import Companion.Generation.Sink

/-!
# Delivering units to a directory

* `Delivery`: a disk that is written to, and the paths written so far.
* `Disk.directorySink`: writes each unit to a file of its own in a directory.
-/

namespace Companion

/-- A disk that is written to, and the paths written so far. -/
structure Delivery (σ : Type) where
  disk : σ
  /-- In the order of writing, a path as often as it was written. -/
  written : List String := []

namespace Disk

variable {σ : Type}

/-- The path of the file that takes a unit. -/
def targetPath (directory extension : String) (unit : SourceUnit) : String :=
  Path.join directory (unit.fileName extension)

/-- Writes one unit.  The directory is made first if it is missing. -/
def deliver (disk : Disk σ) (directory extension : String) (unit : SourceUnit)
    (delivery : Delivery σ) : Except GenerationError Unit × Delivery σ :=
  match disk.makeDirectories directory delivery.disk with
  | (.error problem, state) =>
    (.error (.output unit.key problem.message), { delivery with disk := state })
  | (.ok _, state) =>
    let path := targetPath directory extension unit
    match disk.writeText path unit.text state with
    | (.error problem, state) =>
      (.error (.output unit.key problem.message), { delivery with disk := state })
    | (.ok _, state) => (.ok (), { disk := state, written := delivery.written ++ [path] })

/-- Writes each unit to a file of its own in a directory.  A unit with the key of an earlier one
takes its place. -/
def directorySink (disk : Disk σ) (directory extension : String) :
    Sink (Delivery σ) GenerationError where
  accept := disk.deliver directory extension

end Disk

end Companion
