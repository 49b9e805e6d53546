import Companion.Markup.Attribute

/-!
# Events of a markup text

* `Tag`: a name with attributes.
* `Event`: one piece of a markup text.
* `Reading`: the pieces of a text in order, and the fault that ended its reading, if any.
-/

namespace Companion.Markup

/-- The inside of a tag that begins an element. -/
structure Tag where
  /-- Raw text, which may be empty. -/
  name : String
  /-- Attributes and what stands in the place of attributes, in order. -/
  items : List AttributeItem
  deriving DecidableEq, Repr

namespace Tag

/-- The well-formed attributes in order. -/
def attributes (tag : Tag) : List Attribute :=
  tag.items.filterMap Except.toOption

/-- Whether nothing stands in the place of an attribute. -/
def isWellFormed (tag : Tag) : Bool :=
  tag.items.all Except.isOk

end Tag

/-- The pieces of a text that begin and end no element. -/
inductive Filler
  | text
  | reference
  | comment
  | characterData
  | instruction
  | declaration
  | documentType
  deriving DecidableEq, Repr

/-- One piece of a markup text. -/
inductive Event
  /-- The tag that opens an element. -/
  | openTag (tag : Tag)
  /-- The only tag of an element without content. -/
  | emptyTag (tag : Tag)
  /-- The tag that closes an element. -/
  | closeTag (name : String)
  /-- What stands between tags.  Only its kind is kept. -/
  | filler (kind : Filler)
  deriving DecidableEq, Repr

/-- What reading a text comes to. -/
structure Reading where
  events : List Event
  fault? : Option Fault
  deriving DecidableEq, Repr

/-- A reading with one more event in front. -/
def Reading.cons (event : Event) (reading : Reading) : Reading :=
  { reading with events := event :: reading.events }

end Companion.Markup
