import Companion.Proofs.Manifest.Elements
import Mathlib.Logic.Relation

/-!
# Only elements count

How the elements of a manifest are written makes no difference: an element without content has one
tag or two, and anything may stand between the tags.

* `Rewrites`: one change that leaves the elements as they are.
* `SameElements`: any number of such changes, in either direction.
* `outline`: the tags of events alone, with both tags of each element.
* `sameElements_iff`: events have the same elements exactly if they have the same outline.
* `matchTags_outline`: close tags fit in the outline exactly where they fit in the events.
* `Draft.foldlM_outline`: the outline is taken in as the events are.
* `Compilation.sameElements_spec`: manifests with the same elements come to the same.
-/

namespace Companion

open Markup

namespace Markup

variable {events events' : List Event}

/-! ### Changes that leave the elements as they are -/

/-- One change that leaves the elements as they are: an element without content gets two tags, or
what stands between tags goes. -/
inductive Rewrites : List Event → List Event → Prop
  | twoTags (front : List Event) (tag : Tag) (back : List Event) :
      Rewrites (front ++ .emptyTag tag :: back)
        (front ++ .openTag tag :: .closeTag tag.name :: back)
  | drop (front : List Event) (kind : Filler) (back : List Event) :
      Rewrites (front ++ .filler kind :: back) (front ++ back)

/-- Any number of changes that leave the elements as they are, in either direction. -/
def SameElements : List Event → List Event → Prop :=
  Relation.EqvGen Rewrites

/-- The tags of an event, both of them where an element has no content. -/
def Event.tags : Event → List Event
  | .openTag tag => [.openTag tag]
  | .emptyTag tag => [.openTag tag, .closeTag tag.name]
  | .closeTag name => [.closeTag name]
  | .filler _ => []

/-- The tags of events alone, with both tags of each element. -/
def outline (events : List Event) : List Event :=
  events.flatMap Event.tags

theorem outline_append (events more : List Event) :
    outline (events ++ more) = outline events ++ outline more :=
  List.flatMap_append

theorem outline_cons (event : Event) (rest : List Event) :
    outline (event :: rest) = event.tags ++ outline rest :=
  List.flatMap_cons

theorem Rewrites.outline_eq (h : Rewrites events events') : outline events = outline events' := by
  cases h with
  | twoTags front tag back => simp [outline_append, outline_cons, Event.tags]
  | drop front kind back => simp [outline_append, outline_cons, Event.tags]

theorem SameElements.outline_eq (h : SameElements events events') :
    outline events = outline events' := by
  induction h with
  | rel _ _ step => exact step.outline_eq
  | refl _ => rfl
  | symm _ _ _ ih => exact ih.symm
  | trans _ _ _ _ _ first second => exact first.trans second

/-! ### The outline by such changes -/

theorem Rewrites.cons (event : Event) (h : Rewrites events events') :
    Rewrites (event :: events) (event :: events') := by
  cases h with
  | twoTags front tag back => exact .twoTags (event :: front) tag back
  | drop front kind back => exact .drop (event :: front) kind back

theorem SameElements.cons (event : Event) (h : SameElements events events') :
    SameElements (event :: events) (event :: events') := by
  induction h with
  | rel _ _ step => exact .rel _ _ (step.cons event)
  | refl events => exact .refl _
  | symm _ _ _ ih => exact .symm _ _ ih
  | trans _ _ _ _ _ first second => exact .trans _ _ _ first second

/-- Events come to their outline by changes that leave the elements as they are. -/
theorem sameElements_outline (events : List Event) : SameElements events (outline events) := by
  induction events with
  | nil => exact .refl []
  | cons event rest ih =>
    rw [outline_cons]
    cases event with
    | openTag tag => exact ih.cons _
    | closeTag name => exact ih.cons _
    | emptyTag tag =>
      have hchange := Rewrites.twoTags [] tag rest
      exact .trans _ _ _ (.rel _ _ hchange) ((ih.cons _).cons _)
    | filler kind =>
      have hchange := Rewrites.drop [] kind rest
      exact .trans _ _ _ (.rel _ _ hchange) ih

/-- Events have the same elements exactly if they have the same outline. -/
theorem sameElements_iff : SameElements events events' ↔ outline events = outline events' := by
  constructor
  · intro h
    exact h.outline_eq
  · intro h
    have hback := sameElements_outline events'
    rw [← h] at hback
    exact .trans _ _ _ (sameElements_outline events) (.symm _ _ hback)

/-! ### Close tags -/

/-- Close tags fit in the outline exactly where they fit in the events. -/
theorem matchTags_outline (fault? : Option Fault) (opened : List String) (events : List Event) :
    matchTags fault? opened (outline events) =
      ⟨outline (matchTags fault? opened events).events,
        (matchTags fault? opened events).fault?⟩ := by
  induction events generalizing opened with
  | nil => rfl
  | cons event rest ih =>
    rw [outline_cons]
    cases event with
    | openTag tag => exact congrArg (Reading.cons _) (ih (tag.name :: opened))
    | filler kind => exact ih opened
    | emptyTag tag =>
      -- The second tag closes what the first one opens.
      show Reading.cons _ (matchTags fault? (tag.name :: opened)
        (.closeTag tag.name :: outline rest)) = _
      rw [matchTags, if_pos rfl, ih]
      rfl
    | closeTag name =>
      cases opened with
      | nil => rfl
      | cons innermost outer =>
        show matchTags fault? (innermost :: outer) (.closeTag name :: outline rest) = _
        by_cases hname : innermost = name
        · rw [matchTags, if_pos hname, ih, matchTags, if_pos hname]
          rfl
        · rw [matchTags, if_neg hname, matchTags, if_neg hname]
          rfl

end Markup

/-! ### Taking events in -/

namespace Draft

/-- An event is taken in as its tags are. -/
theorem foldlM_tags (draft : Draft) (event : Event) :
    event.tags.foldlM advance draft = draft.advance event := by
  cases event with
  | openTag tag => exact bind_pure _
  | closeTag name => rfl
  | filler kind => rfl
  | emptyTag tag =>
    show ((draft.advance (.openTag tag)).bind fun next => _) = _
    rw [advance, advance]
    cases draft.beginElement tag with
    | error problem => rfl
    | ok result => rfl

/-- The outline is taken in as the events are. -/
theorem foldlM_outline (draft : Draft) (events : List Event) :
    (outline events).foldlM advance draft = events.foldlM advance draft := by
  induction events generalizing draft with
  | nil => rfl
  | cons event rest ih =>
    rw [outline_cons, List.foldlM_append, foldlM_tags, List.foldlM_cons]
    congr 1
    funext next
    exact ih next

end Draft

namespace Compilation

/-- A reading comes to what its outline comes to. -/
theorem ofReading_outline (events : List Event) (fault? : Option Fault) :
    ofReading ⟨outline events, fault?⟩ = ofReading ⟨events, fault?⟩ := by
  rw [ofReading, ofReading, Draft.ofEvents, Draft.ofEvents, Draft.foldlM_outline]

/-- A text comes to what the outline of its pieces comes to. -/
theorem ofManifest_eq_ofReading_outline {text : String} {events : List Event}
    {fault? : Option Fault} (h : scan (withoutMark text.toList) = ⟨events, fault?⟩) :
    ofManifest text = ofReading (matchTags fault? [] (outline events)) := by
  rw [matchTags_outline, ofReading_outline, ofManifest, Reading.ofText, h]

/-- Manifests with the same elements come to the same compilation, positions included, or to the
same error.  This holds of events that have been read, and of texts whose close tags are still to
be checked. -/
theorem sameElements_spec {events events' : List Event} (h : SameElements events events')
    (fault? : Option Fault) :
    ofReading ⟨events', fault?⟩ = ofReading ⟨events, fault?⟩ ∧
      ∀ text text', scan (withoutMark text.toList) = ⟨events, fault?⟩ →
        scan (withoutMark text'.toList) = ⟨events', fault?⟩ →
          ofManifest text' = ofManifest text := by
  have houtline := h.outline_eq
  constructor
  · rw [← ofReading_outline events', ← houtline, ofReading_outline]
  · intro text text' htext htext'
    rw [ofManifest_eq_ofReading_outline htext', ← houtline,
      ofManifest_eq_ofReading_outline htext]

/-- A class in a namespace. -/
def tersePieces : List Event :=
  [.openTag ⟨"compilation", []⟩, .openTag ⟨"namespace", [.ok ⟨"name", "N"⟩]⟩,
    .emptyTag ⟨"class", [.ok ⟨"name", "A"⟩]⟩, .closeTag "namespace", .closeTag "compilation"]

/-- The same with both tags of the class, and with a declaration, a comment and text. -/
def wordyPieces : List Event :=
  [.filler .declaration, .openTag ⟨"compilation", []⟩, .filler .comment,
    .openTag ⟨"namespace", [.ok ⟨"name", "N"⟩]⟩, .openTag ⟨"class", [.ok ⟨"name", "A"⟩]⟩,
    .filler .text, .closeTag "class", .closeTag "namespace", .closeTag "compilation"]

/-- Text in a class, which may hold no elements, does not matter either. -/
theorem sameElements_spec_wordyPieces :
    SameElements tersePieces wordyPieces ∧
      ofManifest ("<?xml version=\"1.0\"?><compilation><!-- N --><namespace name=\"N\">" ++
          "<class name=\"A\">A</class></namespace></compilation>") =
        ofManifest ("<compilation><namespace name=\"N\"><class name=\"A\"/></namespace>" ++
          "</compilation>") := by
  have h : SameElements tersePieces wordyPieces := sameElements_iff.mpr (by decide)
  exact ⟨h, (sameElements_spec h none).2 _ _ (by decide +kernel) (by decide +kernel)⟩

end Compilation

end Companion
