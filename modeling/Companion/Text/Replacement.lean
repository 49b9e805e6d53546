/-!
# Literal replacement

* `replaceAll`: every occurrence of a literal, leftmost first and without overlap, gives way to a
  value.  The literal is given by its first character and the rest, so it is never empty.
* `replaceAll_of_not_mem`: a text without the first character stays as it is.
-/

namespace Companion.Text

/-- Replaces each occurrence of `first :: more` in a text by `value`.  What has been put in is not
looked at again. -/
def replaceAll (first : Char) (more value : List Char) : List Char → List Char
  | [] => []
  | c :: cs =>
    if c = first ∧ more.isPrefixOf cs then
      value ++ replaceAll first more value (cs.drop more.length)
    else c :: replaceAll first more value cs
termination_by cs => cs.length
decreasing_by
  all_goals simp only [List.length_cons, List.length_drop]; omega

theorem replaceAll_nil (first : Char) (more value : List Char) :
    replaceAll first more value [] = [] := by
  simp [replaceAll]

/-- An occurrence at the front is replaced and reading goes on behind it. -/
theorem replaceAll_hit (first : Char) (more value rest : List Char) :
    replaceAll first more value (first :: (more ++ rest)) =
      value ++ replaceAll first more value rest := by
  rw [replaceAll]
  simp

/-- A character that does not begin an occurrence is kept. -/
theorem replaceAll_miss {first c : Char} {more value cs : List Char}
    (h : ¬(c = first ∧ more.isPrefixOf cs)) :
    replaceAll first more value (c :: cs) = c :: replaceAll first more value cs := by
  rw [replaceAll, if_neg h]

theorem replaceAll_of_not_mem {first : Char} {more value cs : List Char} (h : first ∉ cs) :
    replaceAll first more value cs = cs := by
  induction cs with
  | nil => simp [replaceAll]
  | cons c cs ih =>
    simp only [List.mem_cons, not_or] at h
    rw [replaceAll_miss (fun hit => h.1 hit.1.symm), ih h.2]

end Companion.Text
