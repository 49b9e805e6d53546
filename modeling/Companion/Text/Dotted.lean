import Companion.Text.Separated

/-!
# Dotted names

A qualified name is a run of segments with a dot between each two.

* `segments`: the first segment of a text and those behind it, cut at every dot.
* `joined`: the text of a list of segments.
* `splitLast?`: what stands before and behind the last dot.
* `joined_segments`: cutting and joining gives the text back, wherever its dots stand.
* `segments_joined`: joining and cutting gives segments without dots back.
* `segments_append`: a name behind another one adds its segments.
-/

namespace Companion.Text.Dotted

/-- The first segment of a text and those behind it, cut at every dot. -/
def segments (text : String) : String × List String :=
  let (first, rest) := pieces '.' text.toList
  (String.ofList first, rest.map String.ofList)

/-- The text of a list of segments. -/
def joined (names : List String) : String :=
  ".".intercalate names

/-- The text before and the text behind the last dot, if there is a dot. -/
def splitLast? (text : String) : Option (String × String) :=
  (cutLast? '.' text.toList).map fun (front, back) => (String.ofList front, String.ofList back)

/-- What stands before the last dot, the dot, and what stands behind it are the text. -/
theorem append_of_splitLast? {text front back : String} (h : splitLast? text = some (front, back)) :
    text = front ++ "." ++ back := by
  rw [splitLast?, Option.map_eq_some_iff] at h
  obtain ⟨⟨before, behind⟩, hcut, hparts⟩ := h
  obtain ⟨rfl, rfl⟩ := Prod.mk.inj hparts
  apply String.toList_inj.mp
  have hback : (String.ofList behind).toList = behind := String.toList_ofList
  rw [cutLast?_append hcut, String.toList_append, String.toList_append, String.toList_ofList, hback,
    List.append_assoc]
  rfl

theorem toList_joined (names : List String) :
    (joined names).toList = ['.'].intercalate (names.map String.toList) := by
  simp [joined, String.toList_intercalate]

/-- Cutting at the dots and joining again gives the text back. -/
theorem joined_segments (text : String) :
    joined ((segments text).1 :: (segments text).2) = text := by
  apply String.toList_inj.mp
  have h : String.toList ∘ String.ofList = id := by
    funext cs
    simp
  simp [toList_joined, segments, h, intercalate_pieces]

/-- No segment holds a dot. -/
theorem not_mem_segments (text : String) :
    ∀ name ∈ (segments text).1 :: (segments text).2, '.' ∉ name.toList := by
  have hpieces := not_mem_pieces '.' text.toList
  simpa [segments] using hpieces

/-- Joining segments without dots and cutting at the dots gives them back. -/
theorem segments_joined {first : String} {rest : List String}
    (h : ∀ name ∈ first :: rest, '.' ∉ name.toList) :
    segments (joined (first :: rest)) = (first, rest) := by
  have hpieces : ∀ p ∈ first.toList :: rest.map String.toList, '.' ∉ p := by
    simpa using h
  have hback : String.ofList ∘ String.toList = id := by
    funext text
    simp
  rw [segments, toList_joined, List.map_cons, pieces_intercalate hpieces]
  simp [hback]

/-- The segments of two names with a dot between them are those of the one and then those of the
other. -/
theorem segments_append (front back : String) :
    segments (front ++ "." ++ back) =
      ((segments front).1, (segments front).2 ++ (segments back).1 :: (segments back).2) := by
  have htext : (front ++ "." ++ back).toList = front.toList ++ '.' :: back.toList := by
    rw [String.toList_append, String.toList_append, List.append_assoc]
    rfl
  rw [segments, htext, pieces_append, segments, segments]
  dsimp only
  rw [List.map_append, List.map_cons]

end Companion.Text.Dotted
