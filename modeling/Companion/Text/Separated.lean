/-!
# Separated text

A separating character cuts a text into pieces, which may be empty.

* `pieces`: the first piece of a text and those behind it.
* `cutLast?`: what stands before and behind the last separator.
* `intercalate_pieces`: the pieces with separators between them are the text.
* `not_mem_pieces`: no piece holds the separator.
* `pieces_append`: a separator cuts a text into two that are cut on their own.
* `pieces_intercalate`: cutting what has been put together from pieces gives the pieces back.
-/

namespace Companion.Text

/-- What stands before the first separator, and the pieces behind it. -/
def pieces (separator : Char) : List Char → List Char × List (List Char)
  | [] => ([], [])
  | c :: cs =>
    let (first, rest) := pieces separator cs
    if c = separator then ([], first :: rest) else (c :: first, rest)

/-- The pieces with separators between them are the text. -/
theorem intercalate_pieces (separator : Char) (cs : List Char) :
    [separator].intercalate ((pieces separator cs).1 :: (pieces separator cs).2) = cs := by
  induction cs with
  | nil => rfl
  | cons c cs ih =>
    by_cases h : c = separator
    · simpa [pieces, h, List.intercalate] using ih
    · cases hp : (pieces separator cs).2 with
      | nil => simpa [pieces, h, hp, List.intercalate] using ih
      | cons p ps => simpa [pieces, h, hp, List.intercalate] using ih

/-- No piece holds the separator. -/
theorem not_mem_pieces (separator : Char) (cs : List Char) :
    ∀ p ∈ (pieces separator cs).1 :: (pieces separator cs).2, separator ∉ p := by
  induction cs with
  | nil => simp [pieces]
  | cons c cs ih =>
    by_cases h : c = separator
    · simpa [pieces, h] using ih
    · have hc : ¬ separator = c := fun e => h e.symm
      simpa [pieces, h, hc] using ih

/-- A separator cuts a text into two that are cut on their own. -/
theorem pieces_append (separator : Char) (front back : List Char) :
    pieces separator (front ++ separator :: back) =
      ((pieces separator front).1,
        (pieces separator front).2 ++ (pieces separator back).1 :: (pieces separator back).2) := by
  induction front with
  | nil => simp [pieces]
  | cons c cs ih =>
    rw [List.cons_append, pieces, ih, pieces]
    by_cases h : c = separator
    · simp [h]
    · simp [h]

/-- A text without separators is one piece. -/
theorem pieces_of_not_mem {separator : Char} {cs : List Char} (h : separator ∉ cs) :
    pieces separator cs = (cs, []) := by
  induction cs with
  | nil => rfl
  | cons c cs ih =>
    rw [List.mem_cons, not_or] at h
    have hc : ¬ c = separator := fun e => h.1 e.symm
    rw [pieces, ih h.2]
    simp [hc]

/-- Cutting what has been put together from pieces gives the pieces back. -/
theorem pieces_intercalate {separator : Char} {first : List Char} {rest : List (List Char)}
    (h : ∀ p ∈ first :: rest, separator ∉ p) :
    pieces separator ([separator].intercalate (first :: rest)) = (first, rest) := by
  induction rest generalizing first with
  | nil =>
    rw [List.intercalate_singleton]
    exact pieces_of_not_mem (h first List.mem_cons_self)
  | cons next rest ih =>
    rw [List.forall_mem_cons] at h
    rw [List.intercalate_cons_cons, List.append_assoc, List.singleton_append, pieces_append, ih h.2,
      pieces_of_not_mem h.1, List.nil_append]

/-- What stands before and behind the last separator. -/
def cutLast? (separator : Char) : List Char → Option (List Char × List Char)
  | [] => none
  | c :: cs =>
    match cutLast? separator cs with
    | some (front, back) => some (c :: front, back)
    | none => if c = separator then some ([], cs) else none

/-- The two parts and the separator between them are the text. -/
theorem cutLast?_append {separator : Char} {cs front back : List Char}
    (h : cutLast? separator cs = some (front, back)) : cs = front ++ separator :: back := by
  induction cs generalizing front with
  | nil => simp [cutLast?] at h
  | cons c cs ih =>
    unfold cutLast? at h
    split at h
    · next f b hcut =>
      cases h
      simp [ih hcut]
    · split at h
      · next hc => simp_all
      · simp at h

/-- Only a text without a separator has no last one. -/
theorem cutLast?_eq_none_iff {separator : Char} {cs : List Char} :
    cutLast? separator cs = none ↔ separator ∉ cs := by
  induction cs with
  | nil => simp [cutLast?]
  | cons c cs ih =>
    unfold cutLast?
    split
    · next f b hcut => simp [cutLast?_append hcut]
    · next hcut => simp [ih.mp hcut, eq_comm]

end Companion.Text
