import Companion.Text.Remainder

/-!
# Words between blanks

* `isBlank`: the characters of the property White_Space.
* `words`: the maximal runs of other characters.
-/

namespace Companion.Text

/-- The characters with the property White_Space. -/
def isBlank (c : Char) : Bool :=
  (0x09 ≤ c.val && c.val ≤ 0x0D) || c.val == 0x20 || c.val == 0x85 || c.val == 0xA0 ||
  c.val == 0x1680 || (0x2000 ≤ c.val && c.val ≤ 0x200A) || c.val == 0x2028 || c.val == 0x2029 ||
  c.val == 0x202F || c.val == 0x205F || c.val == 0x3000

/-- The maximal runs of characters that are not blank, in order. -/
def wordRuns : List Char → List (List Char)
  | [] => []
  | c :: cs =>
    if isBlank c then wordRuns cs
    else (c :: cs.takeWhile (!isBlank ·)) :: wordRuns (cs.dropWhile (!isBlank ·))
termination_by cs => cs.length
decreasing_by
  · simp
  · have := length_dropWhile_le (!isBlank ·) cs
    simp only [List.length_cons]
    omega

/-- The words of a text. -/
def words (text : String) : List String :=
  (wordRuns text.toList).map String.ofList

end Companion.Text
