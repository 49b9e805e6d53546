import Companion.Model.Consistency
import Companion.Proofs.Model.BaseLinks
import Mathlib.Data.List.Induction

/-!
# What a consistent compilation promises

* `firstLoop?_eq_findSome?`: the search for circles, which passes over cleared types, finds what a
  search above every type finds.
* `lookup_partTallies`: the one pass over all declarations counts the parts of each type.
* `chainEnds_of_check`: in a consistent compilation they do so.
* `allPartial_of_check`: in a consistent compilation a class with a part marked `partial` has no
  other parts.
-/

namespace Companion.Compilation

variable {c : Compilation} {id : TypeId}

/-! ### Base types -/

theorem loopAbove?_eq_none_iff : c.loopAbove? id = none ↔ c.ChainEnds id := by
  rw [← meetsAgain_ascend_eq_none_iff, loopAbove?, Option.map_eq_none_iff]

/-- Passing over cleared types hides no circle and changes none: what lies above a type without a
circle has none either. -/
theorem firstLoop?_eq_findSome? {ids cleared : List TypeId} (h : ∀ x ∈ cleared, c.ChainEnds x) :
    c.firstLoop? cleared ids = ids.findSome? c.loopAbove? := by
  induction ids generalizing cleared with
  | nil => rfl
  | cons id rest ih =>
    rw [firstLoop?, List.findSome?_cons]
    split
    · next hid => rw [loopAbove?_eq_none_iff.mpr (h id hid), ih h]
    · cases hloop : c.loopAbove? id with
      | some loop => rfl
      | none =>
        have hends : c.ChainEnds id := loopAbove?_eq_none_iff.mp hloop
        have hcleared : ∀ x ∈ id :: c.baseChain id ++ cleared, c.ChainEnds x := by
          intro x hx
          rw [List.cons_append, List.mem_cons, List.mem_append] at hx
          rcases hx with rfl | hx | hx
          · exact hends
          · obtain ⟨-, n, hn⟩ := mem_baseChain.mp hx
            exact hends.of_baseAfter hn
          · exact h x hx
        exact ih hcleared

/-! ### Parts -/

theorem mem_declarationsOf {d : ClassDeclaration} :
    d ∈ c.declarationsOf id ↔ d ∈ c.declarations ∧ d.type = id := by
  simp [declarationsOf]

/-- Only the tally of the type that is declared changes. -/
theorem lookup_count (tallies : List (TypeId × PartTally)) (d : ClassDeclaration) (id : TypeId) :
    (PartTally.count tallies d).lookup id =
      if id = d.type then some (((tallies.lookup id).getD {}).add d.isPartial)
      else tallies.lookup id := by
  induction tallies with
  | nil =>
    by_cases hid : id = d.type
    · simp [PartTally.count, hid]
    · have hne : (id == d.type) = false := beq_false_of_ne hid
      simp [PartTally.count, hid, List.lookup_cons, hne]
  | cons entry rest ih =>
    obtain ⟨other, tally⟩ := entry
    by_cases hid : id = other
    · -- The tally of `id` stands in front.
      subst hid
      by_cases hown : id = d.type
      · simp [PartTally.count, hown]
      · simp [PartTally.count, hown]
    · have hne : (id == other) = false := beq_false_of_ne hid
      by_cases hother : other = d.type
      · subst hother
        simp [PartTally.count, hid, List.lookup_cons, hne]
      · simp [PartTally.count, hother, List.lookup_cons, hne, ih]

/-- The one pass over all declarations counts those of each type. -/
theorem lookup_partTallies (c : Compilation) (id : TypeId) :
    c.partTallies.lookup id =
      if c.declarationsOf id = [] then none
      else some ⟨(c.declarationsOf id).length, (c.declarationsOf id).all (·.isPartial)⟩ := by
  rw [partTallies, declarationsOf]
  induction c.declarations using List.reverseRecOn with
  | nil => rfl
  | append_singleton front d ih =>
    rw [List.foldl_append, List.foldl_cons, List.foldl_nil, lookup_count, ih, List.filter_append]
    by_cases hid : id = d.type
    · subst hid
      by_cases hfront : front.filter (fun other => decide (other.type = d.type)) = []
      · simp [hfront, PartTally.add]
      · simp [hfront, PartTally.add]
    · have hne : ¬ d.type = id := fun h => hid h.symm
      simp [hid, hne]

/-- A type is split into parts of which one is not marked `partial`. -/
def LacksPartial (c : Compilation) (id : TypeId) : Prop :=
  1 < (c.declarationsOf id).length ∧ ∃ d ∈ c.declarationsOf id, d.isPartial = false

theorem lacksPartial_tally_iff :
    (c.partTallies.lookup id).any (·.lacksPartial) = true ↔ c.LacksPartial id := by
  rw [lookup_partTallies, LacksPartial]
  split
  · next h => simp [h]
  · simp [PartTally.lacksPartial]

/-! ### The whole check -/

theorem circularInheritance?_eq_none_iff :
    c.circularInheritance? = none ↔ ∀ id ∈ c.typeIds, c.ChainEnds id := by
  rw [circularInheritance?, Option.map_eq_none_iff, firstLoop?_eq_findSome? (by simp),
    List.findSome?_eq_none_iff]
  simp only [loopAbove?_eq_none_iff]

theorem missingPartial?_eq_none_iff :
    c.missingPartial? = none ↔ ∀ id ∈ c.typeIds, ¬ c.LacksPartial id := by
  rw [missingPartial?, Option.map_eq_none_iff, List.find?_eq_none]
  simp only [lacksPartial_tally_iff]

theorem inconsistency?_eq_none_iff :
    c.inconsistency? = none ↔ c.emptyNamespaceName? = none ∧ c.emptyTypeName? = none ∧
      c.circularInheritance? = none ∧ c.missingPartial? = none := by
  unfold inconsistency?
  cases c.emptyNamespaceName? <;> cases c.emptyTypeName? <;> cases c.circularInheritance? <;> simp

/-- In a consistent compilation all base links come to an end. -/
theorem chainEnds_of_check (h : c.check = .ok ()) (id : TypeId) : c.ChainEnds id := by
  obtain ⟨-, -, hloop, -⟩ := inconsistency?_eq_none_iff.mp ((check_eq_ok_iff c).mp h)
  by_cases hid : id ∈ c.typeIds
  · exact circularInheritance?_eq_none_iff.mp hloop id hid
  · -- An unknown type has no base.
    have hunknown : c.type? id = none := by
      rw [mem_typeIds, ← isSome_type?] at hid
      simpa using hid
    exact ⟨1, by simp [baseAfter, base?, hunknown]⟩

/-- A class with a part that is marked `partial` has no other parts. -/
theorem allPartial_of_check (h : c.check = .ok ()) (known : (c.type? id).isSome = true)
    {d : ClassDeclaration} (hd : d ∈ c.declarationsOf id) (hpartial : d.isPartial = true) :
    ∀ other ∈ c.declarationsOf id, other.isPartial = true := by
  obtain ⟨-, -, -, hparts⟩ := inconsistency?_eq_none_iff.mp ((check_eq_ok_iff c).mp h)
  have hid := missingPartial?_eq_none_iff.mp hparts id
    ((mem_typeIds c id).mpr ((isSome_type? c id).mp known))
  intro other hother
  by_contra hnot
  apply hid
  refine ⟨?_, other, hother, Bool.not_eq_true _ ▸ hnot⟩
  -- With one declaration `d` is the only one.
  by_contra hfew
  obtain ⟨only, honly⟩ : ∃ only, c.declarationsOf id = [only] := by
    have hpos := List.length_pos_of_mem hd
    exact List.length_eq_one_iff.mp (by omega)
  rw [honly, List.mem_singleton] at hd hother
  rw [hother, ← hd] at hnot
  exact hnot hpartial

end Companion.Compilation
