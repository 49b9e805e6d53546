import Companion.Proofs.Manifest.Elements

/-!
# Open elements and the elements around

Reading keeps a stack of open elements.  The tags that opened them are the elements around the
place that reading has come to.

* `segmentsAround`: the segments of the namespaces around, outermost first.
* `Mirrors`: the stack holds what the tags around have opened, and each scope on it has the path that
  these tags spell.
* `Mirrors.segmentsOf?_innermostScope?`: the innermost scope has the path of all namespaces around.
* `Mirrors.qualify_eq`: names are qualified by that path.
-/

namespace Companion

open Markup (Tag)
open Text.Dotted

/-! ### Paths of namespaces around -/

/-- The segments of the namespaces around, outermost first. -/
def segmentsAround (around : List Tag) : List String :=
  (scopeNames around).flatMap allSegments

theorem joined_flatMap_allSegments (names : List String) :
    joined (names.flatMap allSegments) = joined names := by
  induction names with
  | nil => rfl
  | cons name rest ih =>
    rw [List.flatMap_cons]
    cases rest with
    | nil =>
      rw [List.flatMap_nil, List.append_nil]
      exact (joined_segments name).trans String.intercalate_singleton.symm
    | cons next rest =>
      have hne : (next :: rest).flatMap allSegments ≠ [] := by
        rw [List.flatMap_cons]
        exact List.append_ne_nil_of_left_ne_nil (List.cons_ne_nil _ _) _
      have hcut : joined (allSegments name ++ (next :: rest).flatMap allSegments) =
          joined (allSegments name) ++ "." ++ joined ((next :: rest).flatMap allSegments) :=
        String.intercalate_append_of_ne_nil (List.cons_ne_nil _ _) hne
      rw [hcut, ih]
      change joined ((segments name).1 :: (segments name).2) ++ _ ++ _ = _
      rw [joined_segments]
      exact String.intercalate_cons_cons.symm

theorem joined_segmentsAround (around : List Tag) :
    joined (segmentsAround around) = joined (scopeNames around) :=
  joined_flatMap_allSegments _

theorem segmentsAround_cons_of_ne {tag : Tag} (h : tag.name ≠ "namespace") (around : List Tag) :
    segmentsAround (tag :: around) = segmentsAround around := by
  simp [segmentsAround, scopeNames, h]

theorem segmentsAround_cons_scope {tag : Tag} {name : String} (h : tag.name = "namespace")
    (hn : nameAttribute? tag = some name) (around : List Tag) :
    segmentsAround (tag :: around) = segmentsAround around ++ allSegments name := by
  simp [segmentsAround, scopeNames, h, hn]

/-! ### The stack -/

/-- The stack holds what the tags around have opened, and each scope on it has the path that these
tags spell. -/
inductive Compilation.Mirrors (c : Compilation) : List OpenElement → List Tag → Prop
  | nil : c.Mirrors [] []
  | compilation {opened : List OpenElement} {tag : Tag} {around : List Tag}
      (name : tag.name = "compilation") (outer : c.Mirrors opened around) :
      c.Mirrors (.compilation :: opened) (tag :: around)
  | scope {opened : List OpenElement} {tag : Tag} {around : List Tag} {id : NamespaceId}
      (name : tag.name = "namespace") (known : c.KnowsScope (some id))
      (segments : c.segmentsOf? (some id) = segmentsAround (tag :: around))
      (outer : c.Mirrors opened around) : c.Mirrors (.scope id :: opened) (tag :: around)
  | classPart {opened : List OpenElement} {tag : Tag} {around : List Tag}
      (name : tag.name = "class") (outer : c.Mirrors opened around) :
      c.Mirrors (.classPart :: opened) (tag :: around)

namespace Compilation.Mirrors

variable {c c' : Compilation} {opened : List OpenElement} {around : List Tag}

theorem tail (h : c.Mirrors opened around) : c.Mirrors opened.tail around.tail := by
  cases h with
  | nil => exact .nil
  | compilation name outer => exact outer
  | scope name known segments outer => exact outer
  | classPart name outer => exact outer

theorem knowsScope_innermostScope? (h : c.Mirrors opened around) :
    c.KnowsScope (innermostScope? opened) := by
  induction h with
  | nil => exact knowsScope_none c
  | compilation name outer ih => exact ih
  | scope name known segments outer ih => exact known
  | classPart name outer ih => exact ih

/-- The innermost scope has the path of all namespaces around. -/
theorem segmentsOf?_innermostScope? (h : c.Mirrors opened around) :
    c.segmentsOf? (innermostScope? opened) = segmentsAround around := by
  induction h with
  | nil => rfl
  | compilation name outer ih =>
    rw [segmentsAround_cons_of_ne (by rw [name]; decide)]
    exact ih
  | scope name known segments outer ih => exact segments
  | classPart name outer ih =>
    rw [segmentsAround_cons_of_ne (by rw [name]; decide)]
    exact ih

theorem qualify_eq (h : c.Mirrors opened around) (name : String) :
    c.qualify (innermostScope? opened) name = nameWithin around name := by
  rw [qualify, pathOf?_eq_joined, h.segmentsOf?_innermostScope?, joined_segmentsAround]
  rfl

/-- Further scopes do not matter to the stack. -/
theorem keep (h : c.Mirrors opened around) (hf : c.ParentsFirst) (hk : c.KeepsScopes c') :
    c'.Mirrors opened around := by
  induction h with
  | nil => exact .nil
  | compilation name outer ih => exact .compilation name ih
  | scope name known segments outer ih =>
    refine .scope name (known.keep hk) ?_ ih
    rw [segmentsOf?_of_keepsScopes hf hk known, segments]
  | classPart name outer ih => exact .classPart name ih

/-- An open element is of the kind that its tag says. -/
theorem containerOf?_eq {parent : OpenElement} {tag : Tag}
    (h : c.Mirrors (parent :: opened) (tag :: around)) :
    containerOf? tag = if parent = .classPart then none else some parent.element := by
  cases h with
  | compilation name outer => simp [containerOf?, name, OpenElement.element]
  | scope name known segments outer => simp [containerOf?, name, OpenElement.element]
  | classPart name outer => simp [containerOf?, name]

end Compilation.Mirrors

end Companion
