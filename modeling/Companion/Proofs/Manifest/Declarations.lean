import Companion.Proofs.Manifest.Linked
import Mathlib.Data.List.Forall2

/-!
# The declarations of a manifest

* `Compilation.IsPartOf`: a declaration is that of a class element.
* `Compilation.forall₂_declarations`: the declarations of an accepted reading are those of its class
  elements, one for each, in document order.
* `Compilation.ofManifest_declarations`: so are those of an accepted text, and two of them are of one
  type exactly if their elements have one full name.
-/

namespace Companion

open Markup (Reading)

namespace Compilation

variable {c : Compilation} {reading : Reading}

/-- A declaration is that of a class element: it has its modifier, and its type has its full name. -/
structure IsPartOf (c : Compilation) (d : ClassDeclaration) (e : Placement) : Prop where
  known : d.type ∈ c.typeIds
  fullName : c.fullName d.type = e.fullName
  isPartial : d.isPartial = e.isPartial

/-- The full names and modifiers of the declarations. -/
def declared (c : Compilation) : List (String × Bool) :=
  c.declarations.map fun d => (c.fullName d.type, d.isPartial)

/-- Linking leaves the declarations and the full names of their types alone. -/
theorem declared_link {draft : Draft} {elements : List Placement} {around : List Markup.Tag}
    (r : draft.Reads elements around) (h : Agree Placement.baseText? elements) :
    draft.link.Interned ∧ (∀ d ∈ draft.link.declarations, d.type ∈ draft.link.typeIds) ∧
      draft.link.declared = (classElements elements).map fun e => (e.fullName, e.isPartial) := by
  have l := r.links h
  refine ⟨l.interned, ?_, ?_⟩
  · intro d hd
    rw [l.declarations] at hd
    exact l.extends_.mem_typeIds (r.declares.declared d hd)
  · rw [declared, l.declarations, ← r.declares.declarations]
    apply List.map_congr_left
    intro d hd
    rw [l.extends_.fullName_eq r.declares.interned (r.declares.declared d hd)]

/-- What the declarations of an accepted reading say. -/
theorem declared_of_ofReading (h : ofReading reading = .ok c) :
    c.Interned ∧ (∀ d ∈ c.declarations, d.type ∈ c.typeIds) ∧
      c.declared = (classElements (placements reading.events)).map fun e =>
        (e.fullName, e.isPartial) := by
  obtain ⟨hmanifest, draft, around, hreads, rfl⟩ := exists_reads_of_ofReading h
  exact declared_link hreads hmanifest.basesAgree

/-- The declarations of an accepted reading are those of its class elements, one for each, in document
order. -/
theorem forall₂_declarations (h : ofReading reading = .ok c) :
    List.Forall₂ c.IsPartOf c.declarations (classElements (placements reading.events)) := by
  obtain ⟨-, hknown, hdeclared⟩ := declared_of_ofReading h
  rw [declared] at hdeclared
  have hlength : c.declarations.length = (classElements (placements reading.events)).length := by
    have hboth := congrArg List.length hdeclared
    rwa [List.length_map, List.length_map] at hboth
  rw [List.forall₂_iff_get]
  refine ⟨hlength, ?_⟩
  intro i hi hi'
  have hat := congrArg (·[i]?) hdeclared
  simp only [List.getElem?_map, List.getElem?_eq_getElem hi, List.getElem?_eq_getElem hi',
    Option.map_some, Option.some.injEq, Prod.mk.injEq] at hat
  exact ⟨hknown _ (List.getElem_mem hi), hat.1, hat.2⟩

/-- The declarations of an accepted manifest are those of its class elements, one for each, in
document order.  Two of them are of one type exactly if their elements have one full name. -/
theorem ofManifest_declarations {text : String} (h : ofManifest text = .ok c) :
    let parts := classElements (placements (Reading.ofText text).events)
    List.Forall₂ c.IsPartOf c.declarations parts ∧
      ∀ p ∈ c.declarations.zip parts, ∀ q ∈ c.declarations.zip parts,
        (p.1.type = q.1.type ↔ p.2.fullName = q.2.fullName) := by
  have hparts := forall₂_declarations h
  obtain ⟨hinterned, -, -⟩ := declared_of_ofReading h
  refine ⟨hparts, ?_⟩
  intro p hp q hq
  have hpart := (List.forall₂_iff_zip.mp hparts).2 hp
  have hpart' := (List.forall₂_iff_zip.mp hparts).2 hq
  rw [← hpart.fullName, ← hpart'.fullName]
  exact ⟨congrArg c.fullName, hinterned.fullName_inj hpart.known hpart'.known⟩

/-- A class with one part in a dotted namespace and one in nested namespaces. -/
def reopenedManifest : String :=
  "<compilation><namespace name=\"A.B\"><class name=\"X\"/></namespace>" ++
    "<namespace name=\"A\"><namespace name=\"B\"><class name=\"X\" partial=\"true\"/>" ++
      "</namespace></namespace></compilation>"

/-- The one type that both parts declare. -/
def reopenedCompilation : Compilation where
  namespaces := [⟨"A", none⟩, ⟨"B", some ⟨0⟩⟩]
  types := [⟨"A.B.X", { name := "X", scope := some ⟨1⟩ }⟩]
  declarations := [⟨⟨0⟩, false⟩, ⟨⟨0⟩, true⟩]

/-- Both parts are parts of one class, whether or not its namespace is dotted. -/
theorem ofManifest_declarations_reopened :
    ofManifest reopenedManifest = .ok reopenedCompilation ∧
      let parts := classElements (placements (Reading.ofText reopenedManifest).events)
      List.Forall₂ reopenedCompilation.IsPartOf reopenedCompilation.declarations parts ∧
        ∀ p ∈ reopenedCompilation.declarations.zip parts,
          ∀ q ∈ reopenedCompilation.declarations.zip parts,
            (p.1.type = q.1.type ↔ p.2.fullName = q.2.fullName) := by
  have h : ofManifest reopenedManifest = .ok reopenedCompilation := by decide +kernel
  exact ⟨h, ofManifest_declarations h⟩

end Compilation

end Companion
