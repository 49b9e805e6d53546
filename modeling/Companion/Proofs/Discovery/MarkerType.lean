import Companion.Generation.Settings
import Companion.Manifest.Document
import Companion.Proofs.Discovery.Selection

/-!
# The marker type

The way up begins at the base of a class, so that the marker type is no candidate by its own name.  But
base links may lead back to where they come from, and then the marker type is met above itself.

* `IsOnlyNamed`: a type with a simple name that no other type has.
* `InCircle`: base links lead from a type back to it.
* `derives_base_iff_inCircle`: the marker type derives from itself exactly if it lies in a circle.
* `markerType_spec`: when the marker type is eligible, and that it never is where the check has been
  passed.
* `eligible_circularMarker`: a manifest of which the marker type gets a unit.
-/

namespace Companion.Compilation

/-- The type has the given simple name, and no other type has it. -/
def IsOnlyNamed (c : Compilation) (name : String) (id : TypeId) : Prop :=
  ∀ other, c.isNamed name other = true ↔ other = id

/-- Base links lead from the type back to it. -/
def InCircle (c : Compilation) (id : TypeId) : Prop :=
  Relation.TransGen c.BaseLink id id

variable {c : Compilation} {marker : String} {id : TypeId}

/-- Only a type that is there has a name. -/
theorem exists_type?_of_isNamed {name : String} (named : c.isNamed name id = true) :
    ∃ symbol, c.type? id = some symbol := by
  rw [isNamed, Option.any_eq_true] at named
  obtain ⟨symbol, hs, -⟩ := named
  exact ⟨symbol, hs⟩

theorem isOnlyNamed_of_filter (h : c.typeIds.filter (c.isNamed marker) = [id]) :
    c.IsOnlyNamed marker id := by
  intro other
  have hknown : c.isNamed marker other = true → other ∈ c.typeIds := by
    intro named
    obtain ⟨symbol, hs⟩ := exists_type?_of_isNamed named
    rw [mem_typeIds, ← isSome_type?, hs, Option.isSome_some]
  have hmem : c.isNamed marker other = true ↔ other ∈ c.typeIds.filter (c.isNamed marker) := by
    rw [List.mem_filter]
    exact ⟨fun named => ⟨hknown named, named⟩, And.right⟩
  rw [hmem, h, List.mem_singleton]

/-- A type that no other one shares its name with derives from that name exactly if it lies in a
circle. -/
theorem derives_base_iff_inCircle (only : c.IsOnlyNamed marker id) :
    c.derives (c.base? id) marker = true ↔ c.InCircle id := by
  rw [derives_base_iff, InCircle, transGen_baseLink_iff]
  constructor
  · rintro ⟨n, other, hn, named⟩
    obtain rfl := (only other).mp named
    exact ⟨n, hn⟩
  · rintro ⟨n, hn⟩
    exact ⟨n, id, hn, (only id).mpr rfl⟩

/-- Where the sequence of bases ends there is no circle. -/
theorem ChainEnds.not_inCircle (ends : c.ChainEnds id) : ¬ c.InCircle id := by
  rw [InCircle, transGen_baseLink_iff]
  rintro ⟨n, hn⟩
  exact ends.baseAfter_succ_ne n hn

theorem eligibility_eq_eligible_iff_inCircle (only : c.IsOnlyNamed marker id) (isPartial : Bool) :
    c.eligibility marker ⟨id, isPartial⟩ = .eligible ↔
      isPartial = true ∧ (∃ symbol, c.type? id = some symbol ∧ symbol.isAbstract = false) ∧
        c.InCircle id := by
  rw [eligibility_eq_eligible_iff, ← derives_base_iff_inCircle only]
  refine and_congr_right fun _ => ?_
  constructor
  · rintro ⟨symbol, hs, habstract, hderives⟩
    rw [base?, hs, Option.bind_some]
    exact ⟨⟨symbol, rfl, habstract⟩, hderives⟩
  · rintro ⟨⟨symbol, hs, habstract⟩, hderives⟩
    rw [base?, hs, Option.bind_some] at hderives
    exact ⟨symbol, hs, habstract, hderives⟩

/-- A declaration of the marker type is eligible exactly if it is `partial`, and the type is not
abstract and lies in a circle.  So it is with the unit that the type gets, and no declaration of it is
eligible exactly if the type is abstract or lies in no circle.  A compilation that has passed the check
has no circles. -/
theorem markerType_spec (only : c.IsOnlyNamed marker id) :
    (∀ isPartial, c.eligibility marker ⟨id, isPartial⟩ = .eligible ↔
      isPartial = true ∧ (∃ symbol, c.type? id = some symbol ∧ symbol.isAbstract = false) ∧
        c.InCircle id) ∧
    (id ∈ c.eligibleTypes marker ↔
      (∃ d ∈ c.declarationsOf id, d.isPartial = true) ∧
        (∃ symbol, c.type? id = some symbol ∧ symbol.isAbstract = false) ∧ c.InCircle id) ∧
    ((∀ isPartial, c.eligibility marker ⟨id, isPartial⟩ ≠ .eligible) ↔
      (∃ symbol, c.type? id = some symbol ∧ symbol.isAbstract = true) ∨ ¬ c.InCircle id) ∧
    (c.check = .ok () →
      (∀ isPartial, c.eligibility marker ⟨id, isPartial⟩ ≠ .eligible) ∧
        id ∉ c.eligibleTypes marker) := by
  have heligible := eligibility_eq_eligible_iff_inCircle only
  have hunit : id ∈ c.eligibleTypes marker ↔
      (∃ d ∈ c.declarationsOf id, d.isPartial = true) ∧
        (∃ symbol, c.type? id = some symbol ∧ symbol.isAbstract = false) ∧ c.InCircle id := by
    rw [mem_eligibleTypes_iff, derives_base_iff_inCircle only]
  have hnever : (∀ isPartial, c.eligibility marker ⟨id, isPartial⟩ ≠ .eligible) ↔
      (∃ symbol, c.type? id = some symbol ∧ symbol.isAbstract = true) ∨ ¬ c.InCircle id := by
    obtain ⟨symbol, hs⟩ := exists_type?_of_isNamed ((only id).mpr rfl)
    simp only [ne_eq, heligible, hs, Option.some.injEq, exists_eq_left']
    cases symbol.isAbstract <;> simp
  refine ⟨heligible, hunit, hnever, fun consistent => ?_⟩
  have hends := (chainEnds_of_check consistent id).not_inCircle
  exact ⟨hnever.mpr (Or.inr hends), fun hmem => hends (hunit.mp hmem).2.2⟩

/-- A marker type with a class above it that derives from it. -/
def twoCircle : Compilation where
  types := [⟨"Marker", { name := "Marker", scope := none, base := some ⟨1⟩ }⟩,
    ⟨"A", { name := "A", scope := none, base := some ⟨0⟩ }⟩]
  declarations := [⟨⟨0⟩, true⟩]

/-- It gets a unit. -/
theorem markerType_spec_twoCircle :
    twoCircle.IsOnlyNamed "Marker" ⟨0⟩ ∧ twoCircle.InCircle ⟨0⟩ ∧
      twoCircle.eligibility "Marker" ⟨⟨0⟩, true⟩ = .eligible ∧
      ⟨0⟩ ∈ twoCircle.eligibleTypes "Marker" := by
  have only : twoCircle.IsOnlyNamed "Marker" ⟨0⟩ := isOnlyNamed_of_filter (by decide +kernel)
  have hcircle : twoCircle.InCircle ⟨0⟩ :=
    .tail (.single (show twoCircle.base? ⟨0⟩ = some ⟨1⟩ by decide +kernel))
      (show twoCircle.base? ⟨1⟩ = some ⟨0⟩ by decide +kernel)
  have hconcrete : ∃ symbol, twoCircle.type? ⟨0⟩ = some symbol ∧ symbol.isAbstract = false :=
    ⟨_, rfl, rfl⟩
  obtain ⟨heligible, hunit, -, -⟩ := markerType_spec only
  exact ⟨only, hcircle, (heligible true).mpr ⟨rfl, hconcrete, hcircle⟩,
    hunit.mpr ⟨⟨⟨⟨0⟩, true⟩, by decide +kernel, rfl⟩, hconcrete, hcircle⟩⟩

/-- A manifest whose only class is named as the marker and names itself as its base. -/
def circularManifest : String :=
  "<compilation>" ++
    "<class name=\"SingletonScriptableObject\" base=\"SingletonScriptableObject\" partial=\"true\"/>" ++
    "</compilation>"

/-- What it comes to. -/
def circularMarker : Compilation where
  types := [⟨"SingletonScriptableObject",
    { name := "SingletonScriptableObject", scope := none, base := some ⟨0⟩ }⟩]
  declarations := [⟨⟨0⟩, true⟩]

/-- It is accepted, and the marker type is eligible. -/
theorem eligible_circularMarker :
    ofManifest circularManifest = .ok circularMarker ∧
      circularMarker.IsOnlyNamed (default : Settings).marker ⟨0⟩ ∧
      (∃ d ∈ circularMarker.declarations, d.type = ⟨0⟩ ∧
        circularMarker.eligibility (default : Settings).marker d = .eligible) ∧
      circularMarker.eligibleTypes (default : Settings).marker = [⟨0⟩] := by
  refine ⟨by decide +kernel, isOnlyNamed_of_filter (by decide +kernel), ?_, by decide +kernel⟩
  exact ⟨⟨⟨0⟩, true⟩, by decide +kernel, rfl, by decide +kernel⟩

end Companion.Compilation
