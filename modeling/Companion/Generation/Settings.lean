/-!
# Settings of a generation pass

* `Settings`: the marker type that opts a class in, and how keys and file names are formed.
* `Settings.keyFor`: the output key of a class.
-/

namespace Companion

/-- What a generation pass can be told. -/
structure Settings where
  /-- Simple name of the base type that opts a class into generation. -/
  marker : String := "SingletonScriptableObject"
  /-- What follows the class name in the key of its unit. -/
  suffix : String := "_g"
  /-- Extension of generated files, without the dot. -/
  extension : String := "cs"
  deriving DecidableEq, Repr

/-- The settings of a pass that has been told nothing. -/
instance : Inhabited Settings := ⟨{}⟩

/-- The key of the unit of a class with the given simple name. -/
def Settings.keyFor (settings : Settings) (name : String) : String :=
  name ++ settings.suffix

end Companion
