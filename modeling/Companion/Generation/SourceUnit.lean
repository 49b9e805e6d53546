import Companion.Discovery.Descriptor
import Companion.Generation.Settings
import Companion.Template.Substitution

/-!
# Companion units

* `SourceUnit`: one generated source text under its key.
* `SourceUnit.fileName`: the name of the file that takes it.
* `Settings.unitFor`: the unit of a class.
-/

namespace Companion

/-- One generated source text. -/
structure SourceUnit where
  /-- What the unit is called in the output. -/
  key : String
  /-- The whole source text. -/
  text : String
  deriving DecidableEq, Repr

/-- The key and the extension with a dot between them.  Without an extension there is no dot. -/
def SourceUnit.fileName (unit : SourceUnit) (extension : String) : String :=
  if extension.isEmpty then unit.key else unit.key ++ "." ++ extension

/-- The unit of a class: the template without its namespace fragments if the class has no
namespace, filled with name, namespace and accessibility. -/
def Settings.unitFor (settings : Settings) (descriptor : Descriptor) : SourceUnit where
  key := settings.keyFor descriptor.name
  text :=
    Template.render ((Fragment.sequence descriptor.hasNamespace).map Fragment.text)
      descriptor.arguments

@[simp] theorem Settings.key_unitFor (settings : Settings) (descriptor : Descriptor) :
    (settings.unitFor descriptor).key = descriptor.name ++ settings.suffix := rfl

end Companion
