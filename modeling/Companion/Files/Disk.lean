import Companion.Files.Error

/-!
# Disks

* `Disk`: what is asked of a file system.  Each request may be refused, and a refused one may have
  changed something.
-/

namespace Companion

/-- A file system with states of type `σ`. -/
structure Disk (σ : Type) where
  /-- The text of a file. -/
  readText : (path : String) → σ → Except FileError String
  /-- Makes a directory and those around it, as far as they are missing. -/
  makeDirectories : (path : String) → σ → Except FileError Unit × σ
  /-- Gives a file a new content.  Its directory must be there, the file need not. -/
  writeText : (path text : String) → σ → Except FileError Unit × σ

end Companion
