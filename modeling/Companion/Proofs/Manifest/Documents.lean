import Companion.Proofs.Manifest.Elements

/-!
# Documents and the order of their children

* `Balanced`: events that close all that they open.
* `Document`: an outermost element with its children, and what stands around it.
* `Document.Reordered`: the same document with the children in another order.
* `Document.elements_eq`: the elements are the outermost one and those of the children.
* `IsManifest.perm`: the rules of a manifest do not depend on the order of the elements.
-/

namespace Companion

open Markup (Tag Event Filler)

/-! ### Balanced events -/

/-- Events that close all that they open. -/
inductive Balanced : List Event → Prop
  | nil : Balanced []
  | filler (kind : Filler) {rest : List Event} (after : Balanced rest) :
      Balanced (.filler kind :: rest)
  | emptyTag (tag : Tag) {rest : List Event} (after : Balanced rest) :
      Balanced (.emptyTag tag :: rest)
  | element (tag : Tag) (name : String) {inside rest : List Event} (within : Balanced inside)
      (after : Balanced rest) : Balanced (.openTag tag :: (inside ++ .closeTag name :: rest))

/-- What follows balanced events lies inside of the same elements as they do. -/
theorem Balanced.placementsWithin_append {events : List Event} (h : Balanced events)
    (around : List Tag) (more : List Event) :
    placementsWithin around (events ++ more) =
      placementsWithin around events ++ placementsWithin around more := by
  induction h generalizing around more with
  | nil => rfl
  | filler kind after ih => exact ih around more
  | emptyTag tag after ih => exact congrArg (_ :: ·) (ih around more)
  | element tag name within after ihWithin ihAfter =>
    rw [List.cons_append, List.append_assoc, List.cons_append, placementsWithin, placementsWithin,
      ihWithin, ihWithin, placementsWithin, placementsWithin, List.tail_cons, ihAfter,
      List.cons_append, List.append_assoc]

theorem placementsWithin_flatten {children : List (List Event)}
    (h : ∀ child ∈ children, Balanced child) (around : List Tag) (more : List Event) :
    placementsWithin around (children.flatten ++ more) =
      children.flatMap (placementsWithin around) ++ placementsWithin around more := by
  induction children with
  | nil => rfl
  | cons child rest ih =>
    rw [List.forall_mem_cons] at h
    rw [List.flatten_cons, List.append_assoc, h.1.placementsWithin_append, ih h.2,
      List.flatMap_cons, List.append_assoc]

theorem placementsWithin_fillers (around : List Tag) (kinds : List Filler) (more : List Event) :
    placementsWithin around (kinds.map Event.filler ++ more) = placementsWithin around more := by
  induction kinds with
  | nil => rfl
  | cons kind rest ih => exact ih

/-! ### Documents -/

/-- An outermost element with its children, and what stands around it. -/
structure Document where
  front : List Filler := []
  root : Tag
  /-- The elements in the outermost one and what stands between them. -/
  children : List (List Event)
  back : List Filler := []
  balanced : ∀ child ∈ children, Balanced child

namespace Document

/-- The events of a document. -/
def events (d : Document) : List Event :=
  d.front.map .filler ++
    .openTag d.root :: (d.children.flatten ++ .closeTag d.root.name :: d.back.map .filler)

/-- The elements of a document. -/
def elements (d : Document) : List Placement := placements d.events

/-- The elements that a child of the document brings in. -/
def elementsIn (d : Document) (child : List Event) : List Placement :=
  placementsWithin [d.root] child

/-- The same document with the children in another order. -/
structure Reordered (d d' : Document) : Prop where
  front : d'.front = d.front
  root : d'.root = d.root
  children : d'.children.Perm d.children
  back : d'.back = d.back

/-- The document with its children in the given order. -/
def reorder (d : Document) (children : List (List Event)) (h : children.Perm d.children) :
    Document :=
  { d with children, balanced := fun child hc => d.balanced child (h.mem_iff.mp hc) }

theorem reordered_reorder (d : Document) {children : List (List Event)}
    (h : children.Perm d.children) : d.Reordered (d.reorder children h) :=
  ⟨rfl, rfl, h, rfl⟩

/-- The elements are the outermost one and those of the children. -/
theorem elements_eq (d : Document) :
    d.elements = ⟨d.root, []⟩ :: d.children.flatMap d.elementsIn := by
  have hback : placementsWithin [] (d.back.map Event.filler) = [] := by
    have h := placementsWithin_fillers [] d.back []
    rwa [List.append_nil] at h
  rw [elements, placements, events, placementsWithin_fillers, placementsWithin,
    placementsWithin_flatten d.balanced, placementsWithin, List.tail_cons, hback, List.append_nil]
  rfl

theorem Reordered.perm_elements {d d' : Document} (h : d.Reordered d') :
    d'.elements.Perm d.elements := by
  rw [elements_eq, elements_eq, h.root]
  refine List.Perm.cons _ ?_
  have hin : d'.elementsIn = d.elementsIn := by
    funext child
    rw [elementsIn, elementsIn, h.root]
  rw [hin]
  exact h.children.flatMap_right _

end Document

/-! ### Rules -/

/-- The rules of a manifest do not depend on the order of the elements. -/
theorem IsManifest.perm {elements elements' : List Placement} (h : IsManifest elements)
    (hp : elements'.Perm elements) : IsManifest elements' := by
  have hmem : ∀ e, e ∈ elements' → e ∈ elements := fun e he => hp.mem_iff.mp he
  refine ⟨?_, ?_, ?_, ?_, ?_, ?_⟩
  · obtain ⟨root, hroot, hname⟩ := h.oneRoot
    have hfilter := hp.filter Placement.isOutermost
    rw [hroot, List.perm_singleton] at hfilter
    exact ⟨root, hfilter, hname⟩
  · intro e he
    exact h.nested e (hmem e he)
  · intro e he
    exact h.named e (hmem e he)
  · intro e he
    exact h.valued e (hmem e he)
  · intro e he e' he'
    exact h.basesAgree e (hmem e he) e' (hmem e' he')
  · intro e he e' he'
    exact h.levelsAgree e (hmem e he) e' (hmem e' he')

end Companion
