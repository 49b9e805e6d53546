/-!
# Class descriptors

* `Descriptor`: what the template has to know of a class.
* `Descriptor.arguments`: the template arguments, in the order of the placeholders.
* `Descriptor.qualifiedName`: the name with its namespace.
-/

namespace Companion

/-- What the template has to know of a class that gets a unit. -/
structure Descriptor where
  /-- Simple name. -/
  name : String
  /-- Dotted path of the namespace, empty for the global one. -/
  scopePath : String
  /-- Accessibility as it is written in the unit. -/
  accessibility : String
  deriving DecidableEq, Repr

namespace Descriptor

/-- Whether the class lives in a named namespace. -/
def hasNamespace (descriptor : Descriptor) : Bool :=
  !descriptor.scopePath.isEmpty

/-- Name, namespace, accessibility. -/
def arguments (descriptor : Descriptor) : List String :=
  [descriptor.name, descriptor.scopePath, descriptor.accessibility]

/-- The name behind the path of its namespace, or alone if there is none. -/
def qualifiedName (descriptor : Descriptor) : String :=
  if descriptor.hasNamespace then descriptor.scopePath ++ "." ++ descriptor.name
  else descriptor.name

end Descriptor

end Companion
