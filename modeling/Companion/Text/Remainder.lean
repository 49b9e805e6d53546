/-!
# What is left of a text

* `length_dropWhile_le`: dropping a front does not make a list longer.
-/

namespace Companion.Text

theorem length_dropWhile_le {α : Type} (p : α → Bool) (l : List α) :
    (l.dropWhile p).length ≤ l.length :=
  (List.dropWhile_sublist p).length_le

end Companion.Text
