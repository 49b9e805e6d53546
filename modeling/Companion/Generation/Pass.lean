import Companion.Discovery.Eligibility
import Companion.Generation.SourceUnit

/-!
# A generation pass

* `Compilation.descriptor?`: what the template has to know of a type.
* `Compilation.descriptors`: the classes that get a unit.
* `Compilation.generate`: their units.
-/

namespace Companion.Compilation

/-- What the template has to know of a type, if it exists. -/
def descriptor? (c : Compilation) (id : TypeId) : Option Descriptor :=
  (c.type? id).map fun symbol =>
    { name := symbol.name
      scopePath := c.scopePathOf id
      accessibility := symbol.accessibility.keyword }

/-- The classes that get a unit, in the order of their first eligible declaration. -/
def descriptors (c : Compilation) (marker : String) : List Descriptor :=
  (c.eligibleTypes marker).filterMap c.descriptor?

/-- One unit for each class that gets one.  Units with the same key are all there. -/
def generate (c : Compilation) (settings : Settings) : List SourceUnit :=
  (c.descriptors settings.marker).map settings.unitFor

/-- The qualified name of a descriptor is the full name of its type. -/
theorem qualifiedName_of_descriptor? {c : Compilation} {id : TypeId} {descriptor : Descriptor}
    (h : c.descriptor? id = some descriptor) : descriptor.qualifiedName = c.fullName id := by
  obtain ⟨symbol, hs, rfl⟩ := Option.map_eq_some_iff.mp h
  cases he : (c.pathOf? symbol.scope).isEmpty <;>
    simp [Descriptor.qualifiedName, Descriptor.hasNamespace, fullName, qualify, scopePathOf, hs, he]

/-- Every class that gets a unit has a descriptor. -/
theorem isSome_descriptor?_of_mem {c : Compilation} {marker : String} {id : TypeId}
    (h : id ∈ c.eligibleTypes marker) : (c.descriptor? id).isSome = true := by
  obtain ⟨declaration, _, he, rfl⟩ := mem_eligibleTypes.mp h
  obtain ⟨_, symbol, hs, _⟩ := (eligibility_eq_eligible_iff c marker declaration).mp he
  simp [descriptor?, hs]

/-- Every class that gets a unit is there. -/
theorem mem_typeIds_of_mem_eligibleTypes {c : Compilation} {marker : String} {id : TypeId}
    (h : id ∈ c.eligibleTypes marker) : id ∈ c.typeIds := by
  have hsome := isSome_descriptor?_of_mem h
  rw [descriptor?, Option.isSome_map, isSome_type?, ← mem_typeIds] at hsome
  exact hsome

end Companion.Compilation
