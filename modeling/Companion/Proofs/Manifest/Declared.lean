import Companion.Proofs.Manifest.ClassTags
import Companion.Proofs.Manifest.Notes
import Companion.Proofs.Manifest.OpenElements
import Companion.Proofs.Model.Symbols

/-!
# Classes that are declared in parts

* `Compilation.joinPart`: a compilation with one more part of a class.
* `Declares`: a compilation holds exactly the classes that elements declare, each where the first of
  its parts stands, abstract if one of its parts is, and one declaration for each element.
* `Declares.joinPart`: one more part of a class keeps it so.
-/

namespace Companion

open FirstOccurrences
open Markup (Tag)

namespace Compilation

/-! ### One more part -/

/-- The compilation with one more part of a class. -/
def joinPart (c : Compilation) (scope : Option NamespaceId) (part : ClassPart) : Compilation :=
  let (withType, id) := c.internType scope part.name
  let merged := withType.updateType id fun symbol =>
    { symbol with isAbstract := symbol.isAbstract || part.isAbstract }
  (merged.declare id part.isPartial).1

variable {c : Compilation} {scope : Option NamespaceId} {id : TypeId}

/-- The type that a part is joined to, as it was or as it is made. -/
def symbolFor (c : Compilation) (scope : Option NamespaceId) (name : String) : TypeSymbol :=
  (c.type? (c.internType scope name).2).getD { name, scope }

/-- A part is joined to its type by two edits in place. -/
theorem types_joinPart (c : Compilation) (scope : Option NamespaceId) (part : ClassPart) :
    (c.joinPart scope part).types =
      (((c.internType scope part.name).1.updateType (c.internType scope part.name).2
          fun symbol => { symbol with isAbstract := symbol.isAbstract || part.isAbstract }).updateType
        (c.internType scope part.name).2 fun symbol => { symbol with isExternal := false }).types := by
  unfold joinPart Compilation.declare
  dsimp only
  rw [type?_updateType, if_pos rfl, type?_internType, if_pos rfl, Option.map_some]

theorem declarations_joinPart (c : Compilation) (scope : Option NamespaceId) (part : ClassPart) :
    (c.joinPart scope part).declarations =
      c.declarations ++ [⟨(c.internType scope part.name).2, part.isPartial⟩] := by
  unfold joinPart Compilation.declare
  dsimp only
  rw [type?_updateType, if_pos rfl, type?_internType, if_pos rfl, Option.map_some]
  dsimp only
  rw [declarations_updateType, declarations_internType]

theorem type?_joinPart (c : Compilation) (scope : Option NamespaceId) (part : ClassPart)
    (other : TypeId) :
    (c.joinPart scope part).type? other =
      if (c.internType scope part.name).2 = other then
        some { c.symbolFor scope part.name with
          isAbstract := (c.symbolFor scope part.name).isAbstract || part.isAbstract
          isExternal := false }
      else c.type? other := by
  rw [type?_of_types_eq (types_joinPart c scope part), type?_updateType, type?_updateType,
    type?_internType]
  split
  · next he =>
    subst he
    rfl
  · rfl

theorem places_joinPart (c : Compilation) (scope : Option NamespaceId) (part : ClassPart) :
    (c.joinPart scope part).places = (c.internType scope part.name).1.places := by
  refine (places_of_types_eq (types_joinPart c scope part)).trans ?_
  refine (places_updateType _ _ _ ?_ ?_).trans (places_updateType _ _ _ ?_ ?_)
  all_goals exact fun _ => rfl

/-- Joining a part interns the class and edits it in place. -/
theorem joinPart_spec (h : c.Interned) (known : c.KnowsScope scope) (part : ClassPart) :
    TypeInterned c (c.qualify scope part.name)
      (c.joinPart scope part, (c.internType scope part.name).2) := by
  have htype := internType_spec h known part.name
  obtain ⟨hmerged, hx⟩ := htype.interned.updateType (c.internType scope part.name).2
    (fun symbol => { symbol with isAbstract := symbol.isAbstract || part.isAbstract })
    (fun _ => rfl) (fun _ => rfl)
  obtain ⟨hdeclared, hx'⟩ := hmerged.declare (c.internType scope part.name).2 part.isPartial
  have hkept := hx.trans hx'
  refine ⟨hdeclared, htype.extends_.trans hkept, hkept.mem_typeIds htype.known, ?_⟩
  exact (hkept.fullName_eq htype.interned htype.known).trans htype.fullName

/-! ### What parts say -/

/-- A symbol says what the parts of its class say: it lies where the first part stands, and nothing
else is known of it than whether one of the parts is abstract. -/
structure DescribedBy (c : Compilation) (symbol : TypeSymbol) (parts : List Placement) :
    Prop where
  home : ∃ first, parts.head? = some first ∧ symbol.name = first.className ∧
    c.segmentsOf? symbol.scope = segmentsAround first.around
  plain : symbol =
    { name := symbol.name, scope := symbol.scope, isAbstract := parts.any Placement.isAbstract }

section Described

variable {symbol : TypeSymbol} {parts : List Placement} {e : Placement}

theorem DescribedBy.keep {c' : Compilation} (h : c.DescribedBy symbol parts) (hi : c.Interned)
    (hx : c.Extends c') (known : c.KnowsScope symbol.scope) : c'.DescribedBy symbol parts := by
  obtain ⟨first, hfirst, hname, hsegments⟩ := h.home
  refine ⟨⟨first, hfirst, hname, ?_⟩, h.plain⟩
  rw [segmentsOf?_of_keepsScopes hi.parentsFirst hx.scopes known, hsegments]

/-- A further part counts only by whether it is abstract. -/
theorem DescribedBy.concat (h : c.DescribedBy symbol parts) (e : Placement) :
    c.DescribedBy { symbol with
      isAbstract := symbol.isAbstract || e.isAbstract, isExternal := false } (parts ++ [e]) := by
  obtain ⟨first, hfirst, hname, hsegments⟩ := h.home
  refine ⟨⟨first, ?_, hname, hsegments⟩, ?_⟩
  · rw [List.head?_append, hfirst, Option.some_or]
  · rw [h.plain, List.any_append]
    simp

theorem describedBy_singleton (segments : c.segmentsOf? scope = segmentsAround e.around) :
    c.DescribedBy { name := e.className, scope, isAbstract := e.isAbstract } [e] :=
  ⟨⟨e, rfl, rfl, segments⟩, by simp⟩

end Described

/-! ### The classes of the elements -/

/-- A compilation holds exactly the classes that elements declare. -/
structure Declares (c : Compilation) (elements : List Placement) : Prop where
  interned : c.Interned
  names : c.places.map (·.registeredName) =
    ((classElements elements).map Placement.fullName).eraseDups
  described : ∀ id symbol, c.type? id = some symbol →
    c.DescribedBy symbol (partsOf elements (c.fullName id))
  declared : ∀ d ∈ c.declarations, d.type ∈ c.typeIds
  declarations : c.declarations.map (fun d => (c.fullName d.type, d.isPartial)) =
    (classElements elements).map fun e => (e.fullName, e.isPartial)

theorem declares_empty : ({} : Compilation).Declares [] := by
  refine ⟨interned_empty, rfl, ?_, by simp, rfl⟩
  intro id symbol hs
  simp [type?] at hs

namespace Declares

variable {elements : List Placement} {e : Placement}

/-- The full names of the types are those of the class elements. -/
theorem exists_lookup?_iff (d : c.Declares elements) {name : String} :
    (∃ id, c.lookup? name = some id) ↔ partsOf elements name ≠ [] := by
  have hmem : name ∈ c.places.map (·.registeredName) ↔ partsOf elements name ≠ [] := by
    rw [d.names, List.mem_eraseDups, List.mem_map, partsOf, ne_eq, List.filter_eq_nil_iff]
    simp
  rw [← hmem, ← Option.isSome_iff_exists, lookup?_eq, Option.isSome_map, List.findIdx?_isSome]
  simp

theorem partsOf_eq_nil (d : c.Declares elements) {name : String} (h : c.lookup? name = none) :
    partsOf elements name = [] := by
  by_contra hne
  obtain ⟨id, hid⟩ := d.exists_lookup?_iff.mpr hne
  rw [h] at hid
  exact absurd hid (by simp)

theorem concat_of_not (d : c.Declares elements) (he : e.isClass = false) :
    c.Declares (elements ++ [e]) := by
  have hclass : classElements (elements ++ [e]) = classElements elements := by
    rw [classElements_concat, he]
    rfl
  refine ⟨d.interned, by rw [hclass]; exact d.names, ?_, d.declared,
    by rw [hclass]; exact d.declarations⟩
  intro id symbol hs
  rw [partsOf_concat_of_not he]
  exact d.described id symbol hs

/-- Further scopes do not matter to the classes. -/
theorem of_scopes {c' : Compilation} (d : c.Declares elements) (h' : c'.Interned)
    (hx : c.Extends c') (ht : c'.types = c.types) (hd : c'.declarations = c.declarations) :
    c'.Declares elements := by
  refine ⟨h', by rw [places_of_types_eq ht]; exact d.names, ?_, ?_, ?_⟩
  · intro id symbol hs
    rw [type?_of_types_eq ht] at hs
    rw [hx.fullName_eq d.interned (mem_typeIds_of_type? hs)]
    exact (d.described id symbol hs).keep d.interned hx (d.interned.knowsScope_of_type? hs)
  · intro declaration hmem
    rw [hd] at hmem
    exact hx.mem_typeIds (d.declared declaration hmem)
  · rw [hd, ← d.declarations]
    apply List.map_congr_left
    intro declaration hmem
    rw [hx.fullName_eq d.interned (d.declared declaration hmem)]

/-! ### One more class element -/

/-- A further part adds a name exactly if it begins a class. -/
theorem names_joinPart (d : c.Declares elements) (he : e.isClass = true)
    (qualified : c.qualify scope e.className = e.fullName) :
    (c.joinPart scope e.part).places.map (·.registeredName) =
      ((classElements (elements ++ [e])).map Placement.fullName).eraseDups := by
  have hknown : e.fullName ∈ (classElements elements).map Placement.fullName ↔
      ∃ id, c.lookup? e.fullName = some id := by
    rw [d.exists_lookup?_iff, partsOf, ne_eq, List.filter_eq_nil_iff]
    simp
  have hplaces : (c.joinPart scope e.part).places = (c.internType scope e.className).1.places :=
    c.places_joinPart scope e.part
  rw [hplaces, classElements_concat, if_pos he, List.map_append, List.map_singleton,
    eraseDups_concat, ← d.names]
  rcases internType_cases c scope e.className with ⟨id, hl, hi⟩ | ⟨hl, hi⟩
  · rw [qualified] at hl
    rw [if_pos (hknown.mpr ⟨id, hl⟩), hi]
  · rw [qualified] at hl
    have hnew : e.fullName ∉ (classElements elements).map Placement.fullName := by
      rw [hknown, hl]
      simp
    rw [if_neg hnew, hi, places, List.map_append, List.map_append, qualified]
    rfl

/-- The type that a part of a class is joined to lies where the first part stands. -/
theorem describedBy_symbolFor (d : c.Declares elements) (known : c.KnowsScope scope)
    (segments : c.segmentsOf? scope = segmentsAround e.around)
    (qualified : c.qualify scope e.className = e.fullName) :
    c.KnowsScope (c.symbolFor scope e.className).scope ∧
      c.DescribedBy { c.symbolFor scope e.className with
        isAbstract := (c.symbolFor scope e.className).isAbstract || e.isAbstract
        isExternal := false } (partsOf elements e.fullName ++ [e]) := by
  rcases internType_cases c scope e.className with ⟨id, hl, hi⟩ | ⟨hl, hi⟩
  · obtain ⟨symbol, hs⟩ := Option.isSome_iff_exists.mp (isSome_type?_of_lookup? hl)
    have hsymbol : c.symbolFor scope e.className = symbol := by
      rw [symbolFor, hi, hs, Option.getD_some]
    have hfull : c.fullName id = e.fullName := by
      rw [← qualified]
      exact (d.interned.lookup?_eq_some_iff.mp hl).2
    rw [hsymbol, ← hfull]
    exact ⟨d.interned.knowsScope_of_type? hs, (d.described id symbol hs).concat e⟩
  · have hnew : c.type? ⟨c.types.length⟩ = none := by
      simp [type?]
    have hsymbol : c.symbolFor scope e.className = { name := e.className, scope } := by
      rw [symbolFor, hi, hnew, Option.getD_none]
    rw [qualified] at hl
    rw [hsymbol, d.partsOf_eq_nil hl]
    exact ⟨known, describedBy_singleton segments⟩

/-- One more part of a class is one more class element. -/
theorem joinPart (d : c.Declares elements) (he : e.isClass = true) (known : c.KnowsScope scope)
    (segments : c.segmentsOf? scope = segmentsAround e.around)
    (qualified : c.qualify scope e.className = e.fullName) :
    (c.joinPart scope e.part).Declares (elements ++ [e]) := by
  obtain ⟨hinterned, hx, hid, hfull⟩ := joinPart_spec d.interned known e.part
  obtain ⟨hknown, hdescribed⟩ := d.describedBy_symbolFor known segments qualified
  have hnames := d.names_joinPart he qualified
  have htype := c.type?_joinPart scope e.part
  have hdeclarations := c.declarations_joinPart scope e.part
  change (c.joinPart scope e.part).fullName (c.internType scope e.className).2 =
    c.qualify scope e.className at hfull
  rw [qualified] at hfull
  change (c.internType scope e.className).2 ∈ (c.joinPart scope e.part).typeIds at hid
  change ∀ other, _ = if (c.internType scope e.className).2 = other then
    some { c.symbolFor scope e.className with
      isAbstract := (c.symbolFor scope e.className).isAbstract || e.isAbstract
      isExternal := false } else _ at htype
  change _ = c.declarations ++ [⟨(c.internType scope e.className).2, e.isPartial⟩]
    at hdeclarations
  generalize c.joinPart scope e.part = c' at hinterned hx hid hfull hnames htype hdeclarations ⊢
  generalize (c.internType scope e.className).2 = id at hid hfull htype hdeclarations
  refine ⟨hinterned, hnames, ?_, ?_, ?_⟩
  · intro other symbol hs
    rw [htype] at hs
    split at hs
    · next heq =>
      subst heq
      rw [Option.some.injEq] at hs
      rw [← hs, hfull, partsOf_concat he, if_pos rfl]
      exact hdescribed.keep d.interned hx hknown
    · next hne =>
      -- Another type keeps its name and is of another class.
      have hmem := mem_typeIds_of_type? hs
      have hsame := hx.fullName_eq d.interned hmem
      have hother : e.fullName ≠ c.fullName other := by
        intro heq
        rw [← hfull, ← hsame] at heq
        exact hne (hinterned.fullName_inj hid (hx.mem_typeIds hmem) heq)
      rw [hsame, partsOf_concat he, if_neg hother, List.append_nil]
      exact (d.described other symbol hs).keep d.interned hx (d.interned.knowsScope_of_type? hs)
  · intro declaration hmem
    rw [hdeclarations, List.mem_append, List.mem_singleton] at hmem
    rcases hmem with hmem | rfl
    · exact hx.mem_typeIds (d.declared declaration hmem)
    · exact hid
  · rw [hdeclarations, classElements_concat, if_pos he, List.map_append, List.map_append,
      ← d.declarations]
    congr 1
    · apply List.map_congr_left
      intro declaration hmem
      rw [hx.fullName_eq d.interned (d.declared declaration hmem)]
    · rw [List.map_singleton, List.map_singleton, hfull]

end Declares

end Compilation

end Companion
