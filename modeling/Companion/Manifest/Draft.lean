import Companion.Manifest.ClassPart
import Companion.Model.Interning

/-!
# Gathering a manifest

The events of a manifest are taken in one by one.  Base types may be declared further down, so their
names are only noted.

* `Draft`: what has been gathered so far.
* `Draft.addPart`: takes in a part of a class, which must agree with the other parts.
* `Draft.advance`: takes in one event.
* `Draft.ofEvents`: takes in all events up to the first one that breaks a rule.
-/

namespace Companion

open Markup (Event Tag)

/-- An element that has not been closed. -/
inductive OpenElement
  | compilation
  | scope (id : NamespaceId)
  | classPart
  deriving DecidableEq, Repr

/-- Its kind. -/
def OpenElement.element : OpenElement → Element
  | .compilation => .compilation
  | .scope _ => .namespaceScope
  | .classPart => .classPart

/-- The scope of the innermost open namespace. -/
def innermostScope? : List OpenElement → Option NamespaceId
  | [] => none
  | .scope id :: _ => some id
  | _ :: outer => innermostScope? outer

/-- What has been gathered from a manifest. -/
structure Draft where
  compilation : Compilation := {}
  /-- The base that the parts of a type name, in the order in which the types first name one. -/
  bases : List (TypeId × String) := []
  /-- The level that the parts of a type give. -/
  accessibilities : List (TypeId × Accessibility) := []
  /-- The open elements, innermost first. -/
  opened : List OpenElement := []
  /-- Whether there has been an outermost element. -/
  hasRoot : Bool := false
  deriving DecidableEq, Repr

namespace Draft

/-! ### Parts of a class -/

/-- Notes a value for a type.  If another part has given one it must be the same. -/
def note {α : Type} [DecidableEq α] (noted : List (TypeId × α)) (id : TypeId)
    (conflict : α → α → ManifestError) : Option α → Except ManifestError (List (TypeId × α))
  | none => .ok noted
  | some value =>
    match noted.lookup id with
    | none => .ok (noted ++ [(id, value)])
    | some previous => if previous = value then .ok noted else .error (conflict previous value)

/-- Takes in a part of a class that lies in the given scope.  The class is abstract if one of its
parts is. -/
def addPart (draft : Draft) (scope : Option NamespaceId) (part : ClassPart) :
    Except ManifestError Draft := do
  let (c, id) := draft.compilation.internType scope part.name
  let bases ← note draft.bases id (.conflictingBases · · (c.fullName id)) part.base
  let accessibilities ←
    note draft.accessibilities id (.conflictingAccessibilities · · (c.fullName id))
      part.accessibility
  let merged := c.updateType id fun symbol =>
    { symbol with isAbstract := symbol.isAbstract || part.isAbstract }
  return { draft with compilation := (merged.declare id part.isPartial).1, bases, accessibilities }

/-! ### Elements -/

/-- Begins the outermost element. -/
def beginRoot (draft : Draft) (tag : Tag) : Except ManifestError (Draft × OpenElement) :=
  if tag.name ≠ Element.compilation.tagName then .error (.unexpectedRoot tag.name)
  else if draft.hasRoot then .error .secondRoot
  else .ok ({ draft with hasRoot := true }, .compilation)

/-- Begins a namespace. -/
def beginScope (draft : Draft) (tag : Tag) : Except ManifestError (Draft × OpenElement) :=
  match nameAttribute? tag with
  | none => .error (.missingAttribute .namespaceScope "name")
  | some name =>
    let (c, id) := draft.compilation.internScope (innermostScope? draft.opened) name
    .ok ({ draft with compilation := c }, .scope id)

/-- Begins a class or a part of one. -/
def beginPart (draft : Draft) (tag : Tag) : Except ManifestError (Draft × OpenElement) := do
  let part ← ClassPart.ofTag tag
  let draft ← draft.addPart (innermostScope? draft.opened) part
  return (draft, .classPart)

/-- Begins an element.  The outermost one must be the only one there, and a class holds no
elements. -/
def beginElement (draft : Draft) (tag : Tag) : Except ManifestError (Draft × OpenElement) :=
  match draft.opened with
  | [] => draft.beginRoot tag
  | parent :: _ =>
    if parent = .classPart then .error (.unknownElement tag.name .classPart)
    else if tag.name = Element.namespaceScope.tagName then draft.beginScope tag
    else if tag.name = Element.classPart.tagName then draft.beginPart tag
    else .error (.unknownElement tag.name parent.element)

/-! ### Events -/

/-- Takes in one event.  Only tags count. -/
def advance (draft : Draft) : Event → Except ManifestError Draft
  | .openTag tag =>
    (draft.beginElement tag).map fun (next, element) =>
      { next with opened := element :: next.opened }
  | .emptyTag tag => (draft.beginElement tag).map (·.1)
  | .closeTag _ => .ok { draft with opened := draft.opened.tail }
  | .filler _ => .ok draft

/-- Takes in events in order, up to the first one that breaks a rule. -/
def ofEvents (events : List Event) : Except ManifestError Draft :=
  events.foldlM advance {}

end Draft

end Companion
