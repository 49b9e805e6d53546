import Companion.Manifest.Document
import Companion.Proofs.Model.FullNames

/-!
# The elements of a manifest

What makes a run of events a manifest is told here of its elements alone, each with those around it.

* `Placement`: an element where it stands, and `placements`: the elements of a run of events.
* `Placement.fullName`: the full name of the class that a class element declares a part of.
* `IsManifest`: the rules that the elements of a manifest obey, taken together.
* `Placement.offence?`: the rule that an element is the first one to break, given the elements
  before it.
-/

namespace Companion

open Markup (Attribute Tag Event)
open Text.Dotted

/-! ### Elements in their places -/

/-- An element where it stands. -/
structure Placement where
  tag : Tag
  /-- The tags of the elements around it, innermost first. -/
  around : List Tag
  deriving DecidableEq

/-- The elements of a run of events that begins inside of the given elements. -/
def placementsWithin (around : List Tag) : List Event → List Placement
  | [] => []
  | .openTag tag :: rest => ⟨tag, around⟩ :: placementsWithin (tag :: around) rest
  | .emptyTag tag :: rest => ⟨tag, around⟩ :: placementsWithin around rest
  | .closeTag _ :: rest => placementsWithin around.tail rest
  | .filler _ :: rest => placementsWithin around rest

/-- The elements of a run of events, in document order. -/
def placements (events : List Event) : List Placement :=
  placementsWithin [] events

/-- What attributes give under a key.  A reader lets no key come twice in a tag. -/
def lastValue? (attributes : List Attribute) (key : String) : Option String :=
  (attributes.reverse.find? (·.key = key)).map (·.value)

/-- Whether an attribute of a class element has a value that it may have. -/
def fitsClass (given : Attribute) : Bool :=
  if given.key = "partial" ∨ given.key = "abstract" then
    given.value = "true" || given.value = "false"
  else if given.key = "accessibility" then (Accessibility.parse? given.value).isSome
  else true

/-- The names of the namespace elements among those around, outermost first. -/
def scopeNames (around : List Tag) : List String :=
  (around.reverse.filter (·.name = "namespace")).filterMap nameAttribute?

/-- A name behind the path of the namespaces around, alone if that path is empty. -/
def nameWithin (around : List Tag) (name : String) : String :=
  if (joined (scopeNames around)).isEmpty then name else joined (scopeNames around) ++ "." ++ name

namespace Placement

/-- Whether it stands in no other element. -/
def isOutermost (e : Placement) : Bool := e.around.isEmpty

/-- Whether it is a class element. -/
def isClass (e : Placement) : Bool := e.tag.name = "class"

/-- Whether it is a namespace element. -/
def isScope (e : Placement) : Bool := e.tag.name = "namespace"

/-- Whether it gives a name. -/
def isNamed (e : Placement) : Bool := e.tag.attributes.any (·.key = "name")

/-- The simple name of the class. -/
def className (e : Placement) : String := (lastValue? e.tag.attributes "name").getD ""

/-- The full name of the class. -/
def fullName (e : Placement) : String := nameWithin e.around e.className

/-- The base type as it is written. -/
def baseText? (e : Placement) : Option String := lastValue? e.tag.attributes "base"

/-- The level that is given. -/
def level? (e : Placement) : Option Accessibility :=
  (lastValue? e.tag.attributes "accessibility").bind Accessibility.parse?

/-- Whether it is marked `partial`. -/
def isPartial (e : Placement) : Bool := lastValue? e.tag.attributes "partial" = some "true"

/-- Whether it is marked `abstract`. -/
def isAbstract (e : Placement) : Bool := lastValue? e.tag.attributes "abstract" = some "true"

end Placement

/-- The class elements in order. -/
def classElements (elements : List Placement) : List Placement :=
  elements.filter Placement.isClass

/-- The elements that declare parts of the class with the given full name. -/
def partsOf (elements : List Placement) (fullName : String) : List Placement :=
  (classElements elements).filter (·.fullName = fullName)

/-! ### The rules of a manifest -/

/-- The kind of an element that may hold others. -/
def containerOf? (tag : Tag) : Option Element :=
  if tag.name = "compilation" then some .compilation
  else if tag.name = "namespace" then some .namespaceScope
  else none

/-- The rules that the elements of a manifest obey. -/
structure IsManifest (elements : List Placement) : Prop where
  /-- One element stands in no other one, and it is named `compilation`. -/
  oneRoot : ∃ root, elements.filter Placement.isOutermost = [root] ∧ root.tag.name = "compilation"
  /-- Every other one is a namespace or class element in a compilation or namespace. -/
  nested : ∀ e ∈ elements, ∀ parent ∈ e.around.head?,
    (e.isScope = true ∨ e.isClass = true) ∧
      (parent.name = "compilation" ∨ parent.name = "namespace")
  named : ∀ e ∈ elements, e.isScope = true ∨ e.isClass = true → e.isNamed = true
  valued : ∀ e ∈ elements, e.isClass = true → ∀ given ∈ e.tag.attributes, fitsClass given = true
  /-- Parts of one class give no different base texts. -/
  basesAgree : ∀ e ∈ elements, ∀ e' ∈ elements, e.isClass = true → e'.isClass = true →
    e.fullName = e'.fullName → ∀ text ∈ e.baseText?, ∀ text' ∈ e'.baseText?, text = text'
  /-- Parts of one class give no different levels. -/
  levelsAgree : ∀ e ∈ elements, ∀ e' ∈ elements, e.isClass = true → e'.isClass = true →
    e.fullName = e'.fullName → ∀ level ∈ e.level?, ∀ level' ∈ e'.level?, level = level'

/-- The error that two values come to if they are there and differ. -/
def conflict? {α : Type} [DecidableEq α] (error : α → α → ManifestError) :
    Option α → Option α → Option ManifestError
  | some previous, some value => if previous = value then none else some (error previous value)
  | _, _ => none

namespace Placement

/-- What a part of a class gives otherwise than an earlier part, its base before its level. -/
def disagreement? (before : List Placement) (e : Placement) : Option ManifestError :=
  (conflict? (.conflictingBases · · e.fullName)
      ((partsOf before e.fullName).findSome? baseText?) e.baseText?).or
    (conflict? (.conflictingAccessibilities · · e.fullName)
      ((partsOf before e.fullName).findSome? level?) e.level?)

/-- The rule that a class element breaks, given the elements before it: its attributes come before
its name, and its name before the other parts of the class. -/
def classOffence? (before : List Placement) (e : Placement) : Option ManifestError :=
  match e.tag.attributes.find? (!fitsClass ·) with
  | some given => some (.invalidAttribute .classPart given.key given.value)
  | none =>
    if e.isNamed then e.disagreement? before else some (.missingAttribute .classPart "name")

/-- The rule that an element breaks, given the elements before it.  Where all of these are in order
an element that holds others and is no container is a class. -/
def offence? (before : List Placement) (e : Placement) : Option ManifestError :=
  match e.around with
  | [] =>
    if e.tag.name ≠ "compilation" then some (.unexpectedRoot e.tag.name)
    else if before.any isOutermost then some .secondRoot
    else none
  | parent :: _ =>
    match containerOf? parent with
    | none => some (.unknownElement e.tag.name .classPart)
    | some container =>
      if e.isScope then
        if e.isNamed then none else some (.missingAttribute .namespaceScope "name")
      else if e.isClass then e.classOffence? before
      else some (.unknownElement e.tag.name container)

end Placement

/-- The first rule that is broken: that of the first element that breaks one, or that there has to
be an element. -/
def FirstOffence (elements : List Placement) (problem : ManifestError) : Prop :=
  (∃ before e after, elements = before ++ e :: after ∧
      (∀ front x back, before = front ++ x :: back → x.offence? front = none) ∧
        e.offence? before = some problem) ∨
    elements = [] ∧ problem = .missingRoot

end Companion
