import Companion.Proofs.Manifest.BaseNames
import Companion.Proofs.Manifest.Disagreement
import Mathlib.Data.List.Forall2

/-!
# Parts of a class that change places

* `Placement.SamePlace`: one element stands in the place of another one, with its name.
* `Reshuffled`: the parts of one class have changed places.
* `Reshuffled.exists_part_iff`: some part of a class says the same as some part did before.
* `Reshuffled.differ_iff`, `IsPartwiseManifest.reshuffle`: what is asked of a manifest does not depend
  on the order of the parts.
-/

namespace Companion

open Markup (Attribute)

namespace Placement

/-- The attributes that give the name. -/
def nameAttributes (e : Placement) : List Attribute :=
  e.tag.attributes.filter (·.key = "name")

/-- All else that an element says. -/
def saying (e : Placement) : List Attribute :=
  e.tag.attributes.filter (·.key ≠ "name")

/-- One element stands in the place of another one and has its kind and its name. -/
structure SamePlace (e e' : Placement) : Prop where
  kind : e'.tag.name = e.tag.name
  around : e'.around = e.around
  named : e'.nameAttributes = e.nameAttributes

end Placement

/-- The parts of one class have changed places: an element is the same, or is a part of the class
like the one that stood there, and what these parts say is the same in another order. -/
structure Reshuffled (name : String) (elements elements' : List Placement) : Prop where
  places : List.Forall₂ (fun e e' => e' = e ∨ (e.isClass = true ∧ e.fullName = name) ∧
    e.SamePlace e') elements elements'
  sayings : ((partsOf elements' name).map Placement.saying).Perm
    ((partsOf elements name).map Placement.saying)

namespace Placement.SamePlace

variable {e e' : Placement}

theorem headings_eq (h : e.SamePlace e') : e'.headings = e.headings := by
  have hheading : e'.tag.heading = e.tag.heading := Prod.ext h.kind h.named
  rw [headings, headings, List.map_cons, List.map_cons, hheading, h.around]

theorem isClass_eq (h : e.SamePlace e') : e'.isClass = e.isClass :=
  isClass_of_headings h.headings_eq

theorem fullName_eq (h : e.SamePlace e') : e'.fullName = e.fullName :=
  fullName_of_headings h.headings_eq

theorem refl (e : Placement) : e.SamePlace e := ⟨rfl, rfl, rfl⟩

end Placement.SamePlace

namespace Placement

/-- What an attribute gives other than a name is part of what the element says. -/
theorem lastValue?_saying (e : Placement) {key : String} (h : key ≠ "name") :
    lastValue? e.saying key = lastValue? e.tag.attributes key := by
  rw [lastValue?, lastValue?, saying, ← List.filter_reverse, List.find?_filter]
  congr 2
  funext given
  by_cases hkey : given.key = key
  · simp [hkey, h]
  · simp [hkey]

variable {e e' : Placement}

theorem lastValue?_congr (h : e'.saying = e.saying) {key : String} (hkey : key ≠ "name") :
    lastValue? e'.tag.attributes key = lastValue? e.tag.attributes key := by
  rw [← lastValue?_saying e' hkey, ← lastValue?_saying e hkey, h]

theorem isAbstract_congr (h : e'.saying = e.saying) : e'.isAbstract = e.isAbstract := by
  rw [isAbstract, isAbstract, lastValue?_congr h (by decide)]

theorem level?_congr (h : e'.saying = e.saying) : e'.level? = e.level? := by
  rw [level?, level?, lastValue?_congr h (by decide)]

theorem baseText?_congr (h : e'.saying = e.saying) : e'.baseText? = e.baseText? :=
  lastValue?_congr h (by decide)

end Placement

namespace Reshuffled

variable {name : String} {elements elements' : List Placement}

theorem samePlaces (h : Reshuffled name elements elements') :
    List.Forall₂ Placement.SamePlace elements elements' := by
  refine h.places.imp ?_
  intro e e' hplace
  rcases hplace with rfl | ⟨-, hsame⟩
  · exact .refl _
  · exact hsame

theorem headings_eq (h : Reshuffled name elements elements') :
    elements'.map Placement.headings = elements.map Placement.headings := by
  rw [← List.forall₂_eq_eq_eq, List.forall₂_map_left_iff, List.forall₂_map_right_iff]
  exact h.samePlaces.flip.imp fun e' e hsame => hsame.headings_eq

theorem classNames_eq (h : Reshuffled name elements elements') :
    classNames elements' = classNames elements := by
  have hclass : List.Forall₂ Placement.SamePlace (classElements elements)
      (classElements elements') := by
    refine List.rel_filter ?_ h.samePlaces
    intro e e' hsame
    show e.isClass = true ↔ e'.isClass = true
    rw [hsame.isClass_eq]
  have hnames : (classElements elements').map Placement.fullName =
      (classElements elements).map Placement.fullName := by
    rw [← List.forall₂_eq_eq_eq, List.forall₂_map_left_iff, List.forall₂_map_right_iff]
    exact hclass.flip.imp fun e' e hsame => hsame.fullName_eq
  rw [classNames, classNames, hnames]

/-- The parts of another class stay as they are. -/
theorem partsOf_eq_of_ne (h : Reshuffled name elements elements') {other : String}
    (hne : other ≠ name) : partsOf elements' other = partsOf elements other := by
  have hplaces := h.places
  clear h
  simp only [partsOf, classElements, List.filter_filter]
  induction hplaces with
  | nil => rfl
  | @cons e e' rest rest' hplace _ ih =>
    rcases hplace with rfl | ⟨⟨hclass, rfl⟩, hsame⟩
    · rw [List.filter_cons, List.filter_cons, ih]
    · have hout : ∀ x : Placement, x.fullName = e.fullName →
          (decide (x.fullName = other) && x.isClass) = false := by
        intro x hx
        rw [hx, decide_eq_false hne.symm, Bool.false_and]
      rw [List.filter_cons, List.filter_cons, hout e rfl, hout e' hsame.fullName_eq]
      exact ih

theorem sayings_perm (h : Reshuffled name elements elements') (other : String) :
    ((partsOf elements' other).map Placement.saying).Perm
      ((partsOf elements other).map Placement.saying) := by
  by_cases hname : other = name
  · subst hname
    exact h.sayings
  · rw [h.partsOf_eq_of_ne hname]

/-- What holds of some part of a class by what it says holds of some part in the other order. -/
theorem exists_part_iff (h : Reshuffled name elements elements') (other : String)
    {P : Placement → Prop} (hP : ∀ e e' : Placement, e'.saying = e.saying → (P e' ↔ P e)) :
    (∃ e ∈ partsOf elements' other, P e) ↔ ∃ e ∈ partsOf elements other, P e := by
  have hmem : ∀ attributes, attributes ∈ (partsOf elements' other).map Placement.saying ↔
      attributes ∈ (partsOf elements other).map Placement.saying :=
    fun _ => (h.sayings_perm other).mem_iff
  constructor
  · intro hall
    obtain ⟨e', he', hp⟩ := hall
    obtain ⟨e, he, hsame⟩ := List.mem_map.mp ((hmem _).mp (List.mem_map_of_mem he'))
    exact ⟨e, he, (hP e' e hsame).mpr hp⟩
  · intro hall
    obtain ⟨e, he, hp⟩ := hall
    obtain ⟨e', he', hsame⟩ := List.mem_map.mp ((hmem _).mpr (List.mem_map_of_mem he))
    exact ⟨e', he', (hP e e' hsame).mpr hp⟩

theorem exists_given_iff {α : Type} {given : Placement → Option α}
    (hgiven : ∀ e e' : Placement, e'.saying = e.saying → given e' = given e)
    (h : Reshuffled name elements elements') (other : String) (value : α) :
    (∃ e ∈ partsOf elements' other, given e = some value) ↔
      ∃ e ∈ partsOf elements other, given e = some value :=
  h.exists_part_iff other fun e e' hsame => by rw [hgiven e e' hsame]

end Reshuffled

/-! ### The rules in another order -/

theorem Reshuffled.differ_iff {α : Type} {given : Placement → Option α}
    (hgiven : ∀ e e' : Placement, e'.saying = e.saying → given e' = given e) {name : String}
    {elements elements' : List Placement} (h : Reshuffled name elements elements') :
    Differ given elements' ↔ Differ given elements := by
  simp only [Companion.differ_iff, h.exists_given_iff hgiven]

/-- The rules other than agreement do not depend on the order of the parts. -/
theorem IsPartwiseManifest.reshuffle {name : String} {elements elements' : List Placement}
    (m : IsPartwiseManifest elements) (h : Reshuffled name elements elements') :
    IsPartwiseManifest elements' := by
  refine m.of_headings h.headings_eq ?_
  intro e' he' hclass given hgiven
  by_cases hkey : given.key = "name"
  · simp [fitsClass, hkey]
  · -- What is no name has been said by a part before.
    have hrest : given ∈ e'.saying := List.mem_filter.mpr ⟨hgiven, decide_eq_true hkey⟩
    have hpart : ∃ x ∈ partsOf elements' e'.fullName, given ∈ x.saying :=
      ⟨e', mem_partsOf.mpr ⟨he', hclass, rfl⟩, hrest⟩
    rw [h.exists_part_iff e'.fullName fun x y hsame => by rw [hsame]] at hpart
    obtain ⟨e, he, hsaid⟩ := hpart
    obtain ⟨hmem, hclass', -⟩ := mem_partsOf.mp he
    exact m.valued e hmem hclass' given (List.mem_filter.mp hsaid).1

end Companion
