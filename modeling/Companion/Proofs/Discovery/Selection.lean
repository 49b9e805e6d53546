import Companion.Discovery.Eligibility
import Companion.Proofs.Collections.FirstOccurrences
import Companion.Proofs.Model.Consistency

/-!
# Which classes get a unit

The test is made for one declaration after the other.  It comes to a property of the class as a
whole, in any compilation, and to a simpler one if the compilation is consistent.

* `mem_eligibleTypes_iff`: the classes with an eligible declaration, in any compilation.
* `GetsUnit`: the class has a `partial` part, it is not abstract, and base links lead from it to a
  type that is named as the marker.
* `eligibleTypes_spec`: the classes that get a unit are these, in the order of their first `partial`
  parts.
* `IsCandidate`: the class is declared, all its parts are `partial`, it is not abstract, and one of
  its bases is named as the marker.
* `mem_eligibleTypes_iff_isCandidate`: in a consistent compilation the candidates get a unit.
* `pairwise_eligibleTypes`: they stand in the order of their first declarations.
* `eq_eligibleTypes`: no other list holds the candidates in that order.
-/

namespace Companion.Compilation

open FirstOccurrences

variable {c : Compilation} {marker : String} {id : TypeId}

/-! ### Any compilation -/

theorem mem_eligibleTypes_iff :
    id ∈ c.eligibleTypes marker ↔
      (∃ d ∈ c.declarationsOf id, d.isPartial = true) ∧
        (∃ symbol, c.type? id = some symbol ∧ symbol.isAbstract = false) ∧
          c.derives (c.base? id) marker = true := by
  rw [mem_eligibleTypes]
  constructor
  · intro hall
    obtain ⟨d, hd, he, rfl⟩ := hall
    obtain ⟨hpartial, symbol, hs, habstract, hderives⟩ :=
      (eligibility_eq_eligible_iff c marker d).mp he
    refine ⟨⟨d, mem_declarationsOf.mpr ⟨hd, rfl⟩, hpartial⟩, ⟨symbol, hs, habstract⟩, ?_⟩
    rwa [base?, hs, Option.bind_some]
  · intro hall
    obtain ⟨⟨d, hd, hpartial⟩, ⟨symbol, hs, habstract⟩, hderives⟩ := hall
    obtain ⟨hmem, rfl⟩ := mem_declarationsOf.mp hd
    rw [base?, hs, Option.bind_some] at hderives
    exact ⟨d, hmem, (eligibility_eq_eligible_iff c marker d).mpr
      ⟨hpartial, symbol, hs, habstract, hderives⟩, rfl⟩

/-- A class that gets a unit in a compilation of which nothing else is known. -/
structure GetsUnit (c : Compilation) (marker : String) (id : TypeId) : Prop where
  partialPart : ∃ d ∈ c.declarationsOf id, d.isPartial = true
  notAbstract : ∃ symbol, c.type? id = some symbol ∧ symbol.isAbstract = false
  marked : ∃ base, Relation.TransGen c.BaseLink id base ∧ c.isNamed marker base = true

theorem mem_eligibleTypes_iff_getsUnit : id ∈ c.eligibleTypes marker ↔ c.GetsUnit marker id := by
  rw [mem_eligibleTypes_iff, derives_base_iff]
  constructor
  · intro hall
    obtain ⟨hpartial, hsymbol, n, base, hn, named⟩ := hall
    exact ⟨hpartial, hsymbol, base, transGen_baseLink_iff.mpr ⟨n, hn⟩, named⟩
  · intro h
    obtain ⟨base, links, named⟩ := h.marked
    obtain ⟨n, hn⟩ := transGen_baseLink_iff.mp links
    exact ⟨h.partialPart, h.notAbstract, n, base, hn, named⟩

/-- Where the first part of a class stands that is marked `partial`. -/
def firstPartial (c : Compilation) (id : TypeId) : Nat :=
  c.declarations.findIdx fun d => d.isPartial && decide (d.type = id)

/-- All `partial` parts of a class that gets a unit are eligible, so the first of them is the first
eligible one. -/
theorem firstIndex_eligible (h : id ∈ c.eligibleTypes marker) :
    firstIndex (fun d => decide (c.eligibility marker d = .eligible)) (·.type) c.declarations id =
      c.firstPartial id := by
  obtain ⟨-, ⟨symbol, hs, habstract⟩, hderives⟩ := mem_eligibleTypes_iff.mp h
  rw [base?, hs, Option.bind_some] at hderives
  show _ = firstIndex (·.isPartial) (·.type) c.declarations id
  apply firstIndex_congr
  rintro d - rfl
  rw [Bool.eq_iff_iff, decide_eq_true_iff, eligibility_eq_eligible_iff]
  constructor
  · intro hall
    exact hall.1
  · intro hpartial
    exact ⟨hpartial, symbol, hs, habstract, hderives⟩

theorem pairwise_firstPartial_eligibleTypes (c : Compilation) (marker : String) :
    (c.eligibleTypes marker).Pairwise fun a b => c.firstPartial a < c.firstPartial b := by
  have hfirst := pairwise_findIdx_eraseDups
    (fun d => decide (c.eligibility marker d = .eligible)) (·.type) c.declarations
  refine List.Pairwise.imp_of_mem ?_ hfirst
  intro a b ha hb hab
  rwa [firstIndex_eligible ha, firstIndex_eligible hb] at hab

/-- In any compilation the classes that get a unit have a `partial` part, are not abstract and have
the marker above them.  Each stands there once, in the order of the first `partial` parts, and this
says which list it is. -/
theorem eligibleTypes_spec (c : Compilation) (marker : String) :
    (c.eligibleTypes marker).Nodup ∧
      (∀ id, id ∈ c.eligibleTypes marker ↔ c.GetsUnit marker id) ∧
      (c.eligibleTypes marker).Pairwise (fun a b => c.firstPartial a < c.firstPartial b) ∧
      ∀ ids : List TypeId, (∀ id, id ∈ ids ↔ c.GetsUnit marker id) →
        ids.Pairwise (fun a b => c.firstPartial a < c.firstPartial b) →
          ids = c.eligibleTypes marker := by
  have hordered := pairwise_firstPartial_eligibleTypes c marker
  refine ⟨nodup_eraseDups _, fun id => mem_eligibleTypes_iff_getsUnit, hordered, ?_⟩
  intro ids hmem hpair
  refine eq_of_pairwise_index c.firstPartial ?_ hpair hordered
  intro id
  exact (hmem id).trans mem_eligibleTypes_iff_getsUnit.symm

/-! ### Consistent compilations -/

/-- A class that gets a unit, told from all that is known of it. -/
structure IsCandidate (c : Compilation) (marker : String) (id : TypeId) : Prop where
  declared : c.declarationsOf id ≠ []
  allPartial : ∀ d ∈ c.declarationsOf id, d.isPartial = true
  notAbstract : ∃ symbol, c.type? id = some symbol ∧ symbol.isAbstract = false
  marked : ∃ base ∈ c.baseChain id, c.isNamed marker base = true

/-- Where the first declaration of a class stands. -/
def firstDeclaration (c : Compilation) (id : TypeId) : Nat :=
  c.declarations.findIdx fun d => decide (d.type = id)

theorem mem_eligibleTypes_iff_isCandidate (consistent : c.check = .ok ()) :
    id ∈ c.eligibleTypes marker ↔ c.IsCandidate marker id := by
  rw [mem_eligibleTypes_iff, (chainEnds_of_check consistent id).derives_base_iff]
  constructor
  · intro hall
    obtain ⟨⟨d, hd, hpartial⟩, hsymbol, hmarked⟩ := hall
    have hknown : (c.type? id).isSome = true := by
      obtain ⟨symbol, hs, -⟩ := hsymbol
      simp [hs]
    exact ⟨List.ne_nil_of_mem hd, allPartial_of_check consistent hknown hd hpartial, hsymbol,
      hmarked⟩
  · intro h
    obtain ⟨d, hd⟩ := List.exists_mem_of_ne_nil _ h.declared
    exact ⟨⟨d, hd, h.allPartial d hd⟩, h.notAbstract, h.marked⟩

/-- All declarations of a candidate are `partial`, so the first such one is the first one. -/
theorem firstPartial_eq (h : c.IsCandidate marker id) :
    c.firstPartial id = c.firstDeclaration id := by
  have hall : ∀ d ∈ c.declarations, d.type = id → d.isPartial = true := by
    intro d hd hid
    exact h.allPartial d (mem_declarationsOf.mpr ⟨hd, hid⟩)
  have hsame := firstIndex_congr (q := fun _ => true) hall
  rw [firstPartial, firstDeclaration]
  simpa only [firstIndex, Bool.true_and] using hsame

theorem pairwise_eligibleTypes (consistent : c.check = .ok ()) :
    (c.eligibleTypes marker).Pairwise fun a b => c.firstDeclaration a < c.firstDeclaration b := by
  refine List.Pairwise.imp_of_mem ?_ (pairwise_firstPartial_eligibleTypes c marker)
  intro a b ha hb hab
  have ha' := (mem_eligibleTypes_iff_isCandidate consistent).mp ha
  have hb' := (mem_eligibleTypes_iff_isCandidate consistent).mp hb
  rwa [firstPartial_eq ha', firstPartial_eq hb'] at hab

/-- A list that holds the candidates in the order of their first declarations is the list of the
eligible types. -/
theorem eq_eligibleTypes (consistent : c.check = .ok ()) {ids : List TypeId}
    (hmem : ∀ id, id ∈ ids ↔ c.IsCandidate marker id)
    (hpair : ids.Pairwise fun a b => c.firstDeclaration a < c.firstDeclaration b) :
    ids = c.eligibleTypes marker := by
  refine eq_of_pairwise_index c.firstDeclaration ?_ hpair (pairwise_eligibleTypes consistent)
  intro id
  exact (hmem id).trans (mem_eligibleTypes_iff_isCandidate consistent).symm

end Companion.Compilation
