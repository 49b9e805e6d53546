import Companion.Text.Replacement
import Companion.Template.Fragment

/-!
# Filling a template

Placeholders are positional: `$0`, `$1` and so on.  They are filled one index after the other by
literal replacement, so an argument that holds a placeholder of a later index is filled in turn, and
`$1` also stands at the head of `$10`.  A placeholder without an argument stays.

* `fillOne`: one index.
* `fill`: all arguments, lowest index first.
* `render`: fragments joined and filled.
-/

namespace Companion.Template

/-- The decimal digits of a placeholder's index. -/
def indexDigits (index : Nat) : List Char :=
  Nat.toDigits 10 index

/-- Replaces every placeholder of the given index. -/
def fillOne (index : Nat) (argument text : List Char) : List Char :=
  Text.replaceAll '$' (indexDigits index) argument text

/-- Fills the placeholders from the given index on. -/
def fillFrom (index : Nat) : List (List Char) → List Char → List Char
  | [], text => text
  | argument :: rest, text => fillFrom (index + 1) rest (fillOne index argument text)

/-- Fills the placeholders of a text, lowest index first. -/
def fill (arguments : List String) (text : String) : String :=
  String.ofList (fillFrom 0 (arguments.map String.toList) text.toList)

/-- Joins the fragments and fills the result. -/
def render (fragments arguments : List String) : String :=
  fill arguments (String.join fragments)

/-- A text without a dollar sign has no placeholder. -/
theorem fillFrom_of_not_mem {text : List Char} (h : '$' ∉ text) (index : Nat)
    (arguments : List (List Char)) : fillFrom index arguments text = text := by
  induction arguments generalizing index with
  | nil => rfl
  | cons argument rest ih => rw [fillFrom, fillOne, Text.replaceAll_of_not_mem h, ih]

end Companion.Template
