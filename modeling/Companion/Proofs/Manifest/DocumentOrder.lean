import Companion.Proofs.Manifest.Documents
import Companion.Proofs.Manifest.Linked
import Companion.Proofs.Manifest.LookUps

/-!
# Base types and the order of a document

A base that is nowhere declared is added when it is linked, and references that are linked later may
find it.  So the order of the children of a document can matter to base types.

* `SameBases`: the declared classes of one compilation have bases of the same names in another one.
* `Document.Stable`: in every order, each reference comes to the base that it has, if those before it
  do.
-/

namespace Companion

open FirstOccurrences Entries
open Markup (Tag Event)

/-! ### References in another order -/

section Orders

variable {elements elements' : List Placement}

theorem mem_references_of_perm (hp : elements'.Perm elements) {reference : String × String} :
    reference ∈ references elements' ↔ reference ∈ references elements := by
  simp only [mem_references, hp.mem_iff]

theorem map_fst_baseNames (elements : List Placement) :
    (baseNames elements).map (·.1) = (references elements).map (·.1) := by
  unfold baseNames
  induction references elements using List.reverseRecOn with
  | nil => rfl
  | append_singleton front last ih =>
    rw [List.foldl_append, List.foldl_cons, List.foldl_nil, List.map_append, List.map_append, ih]
    rfl

/-- The full name of the base of a class, empty if it has none. -/
def baseNameOf (elements : List Placement) (name : String) : String :=
  ((baseNames elements).lookup name).getD ""

theorem lookup_baseNames (elements : List Placement) (name : String) :
    (baseNames elements).lookup name =
      if name ∈ (references elements).map (·.1) then some (baseNameOf elements name) else none := by
  rw [← map_fst_baseNames, baseNameOf]
  cases hl : (baseNames elements).lookup name with
  | some base =>
    obtain ⟨front, back, hsplit, -⟩ := List.lookup_eq_some_iff.mp hl
    rw [if_pos (by simp [hsplit]), Option.getD_some]
  | none =>
    rw [if_neg]
    intro hmem
    obtain ⟨p, hp, hkey⟩ := List.mem_map.mp hmem
    have hne := List.lookup_eq_none_iff.mp hl p hp
    simp [hkey] at hne

/-- A list of names with values gives back the values that are looked up in it. -/
theorem eq_map_iff_lookup {linked : List (String × String)} (h : (linked.map (·.1)).Nodup)
    (answer : String → String) :
    linked = (linked.map (·.1)).map (fun name => (name, answer name)) ↔
      ∀ name ∈ linked.map (·.1), linked.lookup name = some (answer name) := by
  induction linked with
  | nil => simp
  | cons p rest ih =>
    rw [List.map_cons, List.nodup_cons] at h
    rw [List.map_cons, List.map_cons, List.cons.injEq, ih h.2, List.forall_mem_cons,
      List.lookup_cons, beq_self_eq_true]
    have hrest : ∀ name ∈ rest.map (·.1), (p :: rest).lookup name = rest.lookup name := by
      intro name hname
      have hne : (name == p.1) = false := by
        rw [beq_eq_false_iff_ne]
        intro heq
        exact h.1 (heq ▸ hname)
      rw [List.lookup_cons, hne]
    have hfirst : p = (p.1, answer p.1) ↔ some p.2 = some (answer p.1) := by
      rw [Prod.ext_iff, Option.some.injEq]
      simp
    rw [hfirst]
    refine and_congr Iff.rfl (forall₂_congr ?_)
    intro name hname
    rw [hrest name hname]

/-- Bases are the same in another order exactly if each reference comes to the base that it has, when
those before it do. -/
theorem lookup_baseNames_eq_iff (hp : elements'.Perm elements)
    (h : Agree Placement.baseText? elements') :
    (∀ name ∈ classNames elements,
        (baseNames elements').lookup name = (baseNames elements).lookup name) ↔
      ∀ front reference back, references elements' = front ++ reference :: back →
        lookUp elements' (front.map fun r => baseNameOf elements r.1) reference =
          baseNameOf elements reference.1 := by
  have hnodup := nodup_names_references h
  have hkeys : ∀ name, name ∈ (references elements').map (·.1) ↔
      name ∈ (references elements).map (·.1) := by
    intro name
    simp only [List.mem_map, mem_references_of_perm hp]
  have hclass : ∀ name ∈ (references elements).map (·.1), name ∈ classNames elements := by
    intro name hname
    obtain ⟨reference, hr, rfl⟩ := List.mem_map.mp hname
    obtain ⟨e, he, hclass, hname, -⟩ := mem_references.mp hr
    exact mem_classNames.mpr ⟨e, he, hclass, hname⟩
  have hmap : (references elements').map (fun r => (r.1, baseNameOf elements r.1)) =
      ((baseNames elements').map (·.1)).map fun name => (name, baseNameOf elements name) := by
    rw [map_fst_baseNames, List.map_map]
    rfl
  rw [← foldl_eq_map_iff (·.1) (lookUp elements') (fun r => baseNameOf elements r.1), hmap]
  show _ ↔ baseNames elements' = _
  rw [eq_map_iff_lookup (by rw [map_fst_baseNames]; exact hnodup), map_fst_baseNames]
  constructor
  · intro hsame name hname
    rw [hkeys] at hname
    rw [hsame name (hclass name hname), lookup_baseNames, if_pos hname]
  · intro hright name _
    by_cases hname : name ∈ (references elements).map (·.1)
    · rw [hright name ((hkeys name).mpr hname), lookup_baseNames, if_pos hname]
    · rw [lookup_baseNames, lookup_baseNames, if_neg hname, if_neg]
      rw [hkeys]
      exact hname

end Orders

/-! ### Compilations of reordered documents -/

namespace Compilation

/-- The declared classes of a compilation are found in the other one, and have bases of the same
names there. -/
def SameBases (c c' : Compilation) : Prop :=
  ∀ id, c.declarationsOf id ≠ [] → ∃ id', c'.lookup? (c.fullName id) = some id' ∧
    (c'.base? id').map c'.fullName = (c.base? id).map c.fullName

/-- A compilation that a manifest with the given elements comes to. -/
structure IsOf (c : Compilation) (elements : List Placement) : Prop where
  manifest : IsManifest elements
  /-- A declared class is one of the elements, and has the base that it is looked up to. -/
  base : ∀ id, c.declarationsOf id ≠ [] → c.fullName id ∈ classNames elements ∧
    (c.base? id).map c.fullName = (baseNames elements).lookup (c.fullName id)
  /-- Every class among the elements is declared. -/
  declared : ∀ name ∈ classNames elements, ∃ id, c.lookup? name = some id ∧
    c.fullName id = name ∧ c.declarationsOf id ≠ []

variable {c c' : Compilation} {elements elements' : List Placement} {events : List Event}

theorem isOf_of_ofReading (h : ofReading ⟨events, none⟩ = .ok c) : c.IsOf (placements events) := by
  obtain ⟨hmanifest, draft, around, hreads, rfl⟩ := exists_reads_of_ofReading h
  have hlinks := hreads.links hmanifest.basesAgree
  refine ⟨hmanifest, ?_, ?_⟩
  · intro id hid
    exact hlinks.base_of_declared hreads.declares hid
  · intro name hname
    exact hlinks.exists_declared hreads.declares hname

theorem IsOf.sameBases_iff (h : c.IsOf elements) (h' : c'.IsOf elements')
    (hp : elements'.Perm elements) :
    SameBases c c' ↔ ∀ name ∈ classNames elements,
      (baseNames elements').lookup name = (baseNames elements).lookup name := by
  constructor
  · intro hsame name hname
    obtain ⟨id, -, rfl, hid⟩ := h.declared name hname
    obtain ⟨other, hother, hbase⟩ := hsame id hid
    obtain ⟨id', hlookup, hfull, hid'⟩ :=
      h'.declared (c.fullName id) ((mem_classNames_of_perm hp).mpr hname)
    rw [hother, Option.some.injEq] at hlookup
    subst hlookup
    rw [← (h.base id hid).2, ← hbase, (h'.base other hid').2, hfull]
  · intro hsame id hid
    obtain ⟨hname, hbase⟩ := h.base id hid
    obtain ⟨id', hlookup, hfull, hid'⟩ :=
      h'.declared (c.fullName id) ((mem_classNames_of_perm hp).mpr hname)
    refine ⟨id', hlookup, ?_⟩
    rw [(h'.base id' hid').2, hfull, hsame _ hname, hbase]

end Compilation

namespace Document

variable {d d' : Document} {c : Compilation}

/-- In every order of the children, each reference comes to the base that it has in this one if those
before it do. -/
def Stable (d : Document) : Prop :=
  ∀ d', d.Reordered d' →
    ∀ front reference back, references d'.elements = front ++ reference :: back →
      lookUp d'.elements (front.map fun r => baseNameOf d.elements r.1) reference =
        baseNameOf d.elements reference.1

/-- A document is accepted in every order of its children if it is in one. -/
theorem Reordered.accepted (hr : d.Reordered d')
    (h : Compilation.ofReading ⟨d.events, none⟩ = .ok c) :
    ∃ c', Compilation.ofReading ⟨d'.events, none⟩ = .ok c' := by
  have hmanifest := (Compilation.isManifest_of_ofReading h).perm hr.perm_elements
  obtain ⟨draft, around, -, hok⟩ := Compilation.exists_draft_of_isManifest hmanifest
  exact ⟨draft.link, hok⟩

/-- The bases of an accepted document are the same in every order exactly if it is stable. -/
theorem sameBases_iff_stable (h : Compilation.ofReading ⟨d.events, none⟩ = .ok c) :
    (∀ d' c', d.Reordered d' → Compilation.ofReading ⟨d'.events, none⟩ = .ok c' →
      c.SameBases c') ↔ d.Stable := by
  have hof := Compilation.isOf_of_ofReading h
  constructor
  · intro hsame d' hr
    obtain ⟨c', hc'⟩ := hr.accepted h
    have hof' := Compilation.isOf_of_ofReading hc'
    rw [← lookup_baseNames_eq_iff hr.perm_elements hof'.manifest.basesAgree]
    exact (hof.sameBases_iff hof' hr.perm_elements).mp (hsame d' c' hr hc')
  · intro hstable d' c' hr hc'
    have hof' := Compilation.isOf_of_ofReading hc'
    rw [hof.sameBases_iff hof' hr.perm_elements]
    exact (lookup_baseNames_eq_iff hr.perm_elements hof'.manifest.basesAgree).mpr (hstable d' hr)

end Document

end Companion
