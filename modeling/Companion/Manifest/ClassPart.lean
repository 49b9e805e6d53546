import Companion.Manifest.Error
import Companion.Markup.Event

/-!
# What a class element says

* `nameAttribute?`: the name that an element gives.
* `ClassPart`: what a class element says of its class.
* `ClassPart.ofTag`: its attributes checked in order, and then that there is a name.

Attributes with other keys say nothing.
-/

namespace Companion

open Markup (Attribute Tag)

/-- The name that an element gives. -/
def nameAttribute? (tag : Tag) : Option String :=
  (tag.attributes.find? (·.key = "name")).map (·.value)

/-- A truth value as it is written in a manifest. -/
def parseFlag? (text : String) : Option Bool :=
  if text = "true" then some true else if text = "false" then some false else none

/-- What the attributes of a class element say. -/
structure ClassAttributes where
  name : Option String := none
  base : Option String := none
  isPartial : Bool := false
  isAbstract : Bool := false
  accessibility : Option Accessibility := none
  deriving DecidableEq, Repr

namespace ClassAttributes

/-- The value of an attribute, or the error that it has none. -/
def valueOf {α : Type} (given : Attribute) (parsed : Option α) : Except ManifestError α :=
  match parsed with
  | some value => .ok value
  | none => .error (.invalidAttribute .classPart given.key given.value)

/-- Takes in one more attribute. -/
def add (found : ClassAttributes) (given : Attribute) :
    Except ManifestError ClassAttributes :=
  match given.key with
  | "name" => .ok { found with name := some given.value }
  | "base" => .ok { found with base := some given.value }
  | "partial" =>
    (valueOf given (parseFlag? given.value)).map fun isPartial =>
      { found with isPartial }
  | "abstract" =>
    (valueOf given (parseFlag? given.value)).map fun isAbstract =>
      { found with isAbstract }
  | "accessibility" =>
    (valueOf given (Accessibility.parse? given.value)).map fun level =>
      { found with accessibility := some level }
  | _ => .ok found

/-- Takes in attributes up to the first one with an invalid value. -/
def ofAttributes (attributes : List Attribute) : Except ManifestError ClassAttributes :=
  attributes.foldlM add {}

end ClassAttributes

/-- What a class element says of its class. -/
structure ClassPart where
  name : String
  /-- The base type as the element names it. -/
  base : Option String
  isPartial : Bool
  isAbstract : Bool
  accessibility : Option Accessibility
  deriving DecidableEq, Repr

/-- Reads a class element. -/
def ClassPart.ofTag (tag : Tag) : Except ManifestError ClassPart :=
  match ClassAttributes.ofAttributes tag.attributes with
  | .error problem => .error problem
  | .ok found =>
    match found.name with
    | none => .error (.missingAttribute .classPart "name")
    | some name => .ok { found with name }

end Companion
