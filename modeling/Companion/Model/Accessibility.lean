import Companion.Text.Blank

/-!
# Declared accessibility

* `Accessibility`: how visible a type is declared to be.
* `Accessibility.parse?`: the level that a modifier text such as `protected internal` stands for.
* `Accessibility.keyword`: the single word that is put into a generated declaration.
-/

namespace Companion

/-- How visible a type is declared to be. -/
inductive Accessibility
  | publicAccess
  | internalAccess
  | protectedAccess
  | privateAccess
  /-- Both `protected` and `internal` are given, and either of them is enough. -/
  | protectedOrInternal
  /-- Both `private` and `protected` are given, and both have to hold. -/
  | protectedAndInternal
  /-- Accessibility means nothing for the type. -/
  | notApplicable
  deriving DecidableEq, Repr

namespace Accessibility

/-- A type whose declarations say nothing is internal. -/
instance : Inhabited Accessibility := ⟨.internalAccess⟩

/-- The level that a modifier text stands for.  The order of two modifiers does not matter, nor do
the blanks around them. -/
def parse? (text : String) : Option Accessibility :=
  match Text.words text with
  | ["public"] => some .publicAccess
  | ["internal"] => some .internalAccess
  | ["protected"] => some .protectedAccess
  | ["private"] => some .privateAccess
  | ["protected", "internal"] | ["internal", "protected"] => some .protectedOrInternal
  | ["private", "protected"] | ["protected", "private"] => some .protectedAndInternal
  | _ => none

/-- One lower-case word for each level.  Combined levels collapse to a single word. -/
def keyword : Accessibility → String
  | .publicAccess => "public"
  | .internalAccess => "internal"
  | .protectedAccess => "protected"
  | .privateAccess => "private"
  | .protectedOrInternal => "protectedorinternal"
  | .protectedAndInternal => "protectedandinternal"
  | .notApplicable => "notapplicable"

/-- Different levels have different words. -/
theorem keyword_inj {a b : Accessibility} (h : a.keyword = b.keyword) : a = b := by
  revert h
  cases a <;> cases b <;> decide

end Accessibility

end Companion
