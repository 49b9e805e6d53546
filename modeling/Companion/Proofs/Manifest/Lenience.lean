import Companion.Proofs.Manifest.Acceptance
import Companion.Proofs.Markup.Attributes

/-!
# Attributes that do not count

What stands in the place of an attribute is passed over in silence: a manifest comes to the same
without it.

* `Draft.advance_cleaned`: an event counts for its attributes alone.
* `Compilation.ofManifest_cleaned`: a manifest is accepted for what is left of it if only attributes
  stay, and nothing goes exactly if the tags of all elements are well formed.
* `Compilation.not_isWellFormed_unquoted`: an accepted manifest with a tag that is not well formed.
-/

namespace Companion

open Markup

/-! ### Tags of elements -/

theorem map_tag_placementsWithin (around : List Tag) (events : List Event) :
    (placementsWithin around events).map Placement.tag = events.filterMap Event.tag? := by
  induction events generalizing around with
  | nil => rfl
  | cons event rest ih =>
    cases event with
    | openTag tag => exact congrArg (tag :: ·) (ih _)
    | emptyTag tag => exact congrArg (tag :: ·) (ih _)
    | closeTag name => exact ih _
    | filler kind => exact ih _

/-- The tags of the elements are those of the events. -/
theorem forall_placements_iff (events : List Event) (p : Tag → Prop) :
    (∀ e ∈ placements events, p e.tag) ↔ ∀ tag ∈ events.filterMap Event.tag?, p tag := by
  rw [← map_tag_placementsWithin [] events]
  simp only [List.mem_map, forall_exists_index, and_imp, forall_apply_eq_imp_iff₂, placements]

theorem nameAttribute?_cleaned (tag : Tag) : nameAttribute? tag.cleaned = nameAttribute? tag := by
  rw [nameAttribute?, Tag.attributes_cleaned, nameAttribute?]

theorem ClassPart.ofTag_cleaned (tag : Tag) : ofTag tag.cleaned = ofTag tag := by
  rw [ofTag, Tag.attributes_cleaned, ofTag]

/-! ### Events -/

namespace Draft

variable (draft : Draft)

theorem beginScope_cleaned (tag : Tag) :
    draft.beginScope tag.cleaned = draft.beginScope tag := by
  rw [beginScope, nameAttribute?_cleaned, beginScope]

theorem beginPart_cleaned (tag : Tag) : draft.beginPart tag.cleaned = draft.beginPart tag := by
  rw [beginPart, ClassPart.ofTag_cleaned, beginPart]

theorem beginElement_cleaned (tag : Tag) :
    draft.beginElement tag.cleaned = draft.beginElement tag := by
  unfold beginElement
  cases draft.opened with
  | nil => rfl
  | cons parent outer =>
    dsimp only
    rw [Tag.name_cleaned, beginScope_cleaned, beginPart_cleaned]

/-- An event counts for its attributes alone. -/
theorem advance_cleaned (event : Event) : draft.advance event.cleaned = draft.advance event := by
  cases event with
  | openTag tag => rw [Event.cleaned, advance, beginElement_cleaned, advance]
  | emptyTag tag => rw [Event.cleaned, advance, beginElement_cleaned, advance]
  | closeTag name => rfl
  | filler kind => rfl

theorem ofEvents_cleaned (events : List Event) :
    ofEvents (events.map Event.cleaned) = ofEvents events := by
  rw [ofEvents, List.foldlM_map, ofEvents]
  congr 1
  funext draft event
  exact draft.advance_cleaned event

end Draft

/-! ### The whole manifest -/

namespace Compilation

theorem ofReading_cleaned (reading : Reading) : ofReading reading.cleaned = ofReading reading := by
  rw [ofReading, Reading.cleaned, Draft.ofEvents_cleaned, ofReading]

/-- The tags that are left are well formed, with each key once. -/
theorem isWellFormed_of_mem_cleaned (text : String) :
    ∀ e ∈ placements (Reading.ofText text).cleaned.events,
      e.tag.isWellFormed = true ∧ (e.tag.attributes.map Attribute.key).Nodup := by
  rw [forall_placements_iff _ fun tag =>
    tag.isWellFormed = true ∧ (tag.attributes.map Attribute.key).Nodup]
  intro tag htag
  obtain ⟨event, hevent, htag⟩ := List.mem_filterMap.mp htag
  obtain ⟨original, horiginal, rfl⟩ := List.mem_map.mp hevent
  rw [Event.tag?_cleaned, Option.map_eq_some_iff] at htag
  obtain ⟨whole, hwhole, rfl⟩ := htag
  refine ⟨whole.isWellFormed_cleaned, ?_⟩
  rw [Tag.attributes_cleaned]
  exact nodup_keys_of_ofText text original horiginal whole hwhole

/-- A manifest is accepted for what is left of it if only attributes stay, each key once, and it comes
to that.  Nothing goes exactly if the tags of all elements are well formed. -/
theorem ofManifest_cleaned (text : String) :
    let left := (Reading.ofText text).cleaned
    ofManifest text = ofReading left ∧
      ((∃ c, ofManifest text = .ok c) ↔
        left.fault? = none ∧ IsManifest (placements left.events)) ∧
      (∀ e ∈ placements left.events,
        e.tag.isWellFormed = true ∧ (e.tag.attributes.map Attribute.key).Nodup) ∧
      (left = Reading.ofText text ↔
        ∀ e ∈ placements (Reading.ofText text).events, e.tag.isWellFormed = true) := by
  have hleft : ofManifest text = ofReading (Reading.ofText text).cleaned :=
    (ofReading_cleaned _).symm
  refine ⟨hleft, ?_, isWellFormed_of_mem_cleaned text, ?_⟩
  · rw [hleft]
    exact exists_ofReading_iff _
  · rw [Reading.cleaned_eq_iff, forall_placements_iff _ (Tag.isWellFormed · = true)]

/-- A manifest with a value that is not quoted. -/
def unquotedManifest : String := "<compilation><class name=\"A\" partial=true/></compilation>"

/-- It is accepted, and its class is not partial. -/
theorem not_isWellFormed_unquoted :
    ofManifest unquotedManifest =
        .ok { types := [⟨"A", { name := "A", scope := none }⟩], declarations := [⟨⟨0⟩, false⟩] } ∧
      ∃ e ∈ placements (Reading.ofText unquotedManifest).events,
        e.isClass = true ∧ e.tag.isWellFormed = false := by
  have hany : ((placements (Reading.ofText unquotedManifest).events).any fun e =>
      e.isClass && !e.tag.isWellFormed) = true := by
    decide +kernel
  obtain ⟨e, he, hboth⟩ := List.any_eq_true.mp hany
  rw [Bool.and_eq_true, Bool.not_eq_true'] at hboth
  exact ⟨by decide +kernel, e, he, hboth⟩

end Compilation

end Companion
