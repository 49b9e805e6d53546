import Companion.Markup.Fault
import Companion.Model.Accessibility

/-!
# Errors of a manifest

* `Element`: the elements that a manifest is made of.
* `ManifestError`: why a text is no manifest, and `ManifestError.message`: its wording.
-/

namespace Companion

/-- The elements that a manifest is made of. -/
inductive Element
  /-- The outermost element. -/
  | compilation
  /-- A namespace, which may lie in another one. -/
  | namespaceScope
  /-- A class or a part of one. -/
  | classPart
  deriving DecidableEq, Repr

/-- The name of an element in its tags. -/
def Element.tagName : Element → String
  | .compilation => "compilation"
  | .namespaceScope => "namespace"
  | .classPart => "class"

/-- Why a text is no manifest. -/
inductive ManifestError
  /-- It cannot be read as markup. -/
  | markup (fault : Markup.Fault)
  | missingAttribute (element : Element) (key : String)
  | invalidAttribute (element : Element) (key value : String)
  /-- An element that may not stand where it stands. -/
  | unknownElement (found : String) (context : Element)
  /-- The outermost element is another one. -/
  | unexpectedRoot (found : String)
  | secondRoot
  | missingRoot
  /-- Two parts of a class give different base texts. -/
  | conflictingBases (first second className : String)
  /-- Two parts of a class give different levels. -/
  | conflictingAccessibilities (first second : Accessibility) (className : String)
  deriving DecidableEq, Repr

namespace ManifestError

/-- The sentence on a text whose elements are not put together as those of a manifest. -/
def structural (detail : String) : String :=
  "invalid manifest structure: " ++ detail

/-- The wording of an error. -/
def message : ManifestError → String
  | .markup fault => "XML parsing error: " ++ fault.message
  | .missingAttribute element key =>
    "missing required attribute '" ++ key ++ "' on element '" ++ element.tagName ++ "'"
  | .invalidAttribute element key value =>
    "invalid value '" ++ value ++ "' for attribute '" ++ key ++ "' on element '" ++
      element.tagName ++ "'"
  | .unknownElement found context =>
    "unknown element '" ++ found ++ "' in context '" ++ context.tagName ++ "'"
  | .unexpectedRoot found =>
    structural ("expected root element 'compilation', found '" ++ found ++ "'")
  | .secondRoot => structural "multiple compilation elements"
  | .missingRoot => structural "No compilation element found"
  | .conflictingBases first second className =>
    structural ("conflicting base types '" ++ first ++ "' and '" ++ second ++ "' for class '" ++
      className ++ "'")
  | .conflictingAccessibilities first second className =>
    structural ("conflicting accessibility '" ++ first.keyword ++ "' and '" ++ second.keyword ++
      "' for class '" ++ className ++ "'")

end ManifestError

end Companion
