import Companion.Proofs.Manifest.Linked

/-!
# What linking fills in

Reading leaves the levels and the bases of the classes open.  Linking fills them in, one after the
other, and adds the types that are referred to and not declared.

* `type?_foldl_setAccessibility`: a type gets the level that is noted for it.
* `FillsIn`: a compilation is another one with bases filled in, and with plain external types added
  behind its own.
* `FillsIn.foldl_linkBase`: linking bases does no more than that.
* `Draft.Reads.type?_link`: what linking makes of the symbol of a class.
* `Draft.Reads.link_added`: what linking knows of a type that it adds.
-/

namespace Companion

open FirstOccurrences
open Markup (Tag)

namespace Compilation

variable {origin c : Compilation} {id : TypeId}

/-! ### Levels -/

theorem type?_setAccessibility (c : Compilation) (id other : TypeId) (level : Accessibility) :
    (c.setAccessibility id level).type? other =
      if id = other then (c.type? other).map fun symbol => { symbol with accessibility := level }
      else c.type? other :=
  c.type?_updateType id other _

/-- A type gets the level that is noted for it, and keeps its own if none is. -/
theorem type?_foldl_setAccessibility (c : Compilation) {noted : List (TypeId × Accessibility)}
    (hnodup : (noted.map (·.1)).Nodup) (other : TypeId) :
    (noted.foldl (fun c p => c.setAccessibility p.1 p.2) c).type? other =
      (c.type? other).map fun symbol =>
        { symbol with accessibility := (noted.lookup other).getD symbol.accessibility } := by
  induction noted generalizing c with
  | nil =>
    show c.type? other = (c.type? other).map id
    rw [Option.map_id, id_eq]
  | cons p rest ih =>
    obtain ⟨id, level⟩ := p
    rw [List.map_cons, List.nodup_cons] at hnodup
    rw [List.foldl_cons, ih _ hnodup.2, type?_setAccessibility]
    by_cases h : id = other
    · -- No later note is on the same type.
      subst h
      have hfresh : id ∉ rest.map (·.1) := hnodup.1
      have hnone : rest.lookup id = none := by
        rw [List.lookup_eq_none_iff]
        intro q hq
        have hne : id ≠ q.1 := fun he => hfresh (he ▸ List.mem_map_of_mem hq)
        simpa using hne
      rw [if_pos rfl, Option.map_map, hnone, List.lookup_cons, beq_self_eq_true]
      rfl
    · have hne : (other == id) = false := beq_false_of_ne fun he => h he.symm
      rw [if_neg h, List.lookup_cons, hne]

/-! ### Bases -/

/-- A compilation is another one with bases filled in, and with plain external types added behind
its own. -/
structure FillsIn (origin c : Compilation) : Prop where
  kept : ∀ id symbol, origin.type? id = some symbol →
    ∃ base, c.type? id = some { symbol with base }
  added : ∀ id symbol, c.type? id = some symbol → id ∉ origin.typeIds →
    symbol = { name := symbol.name, scope := symbol.scope, isExternal := true }

theorem FillsIn.refl (c : Compilation) : FillsIn c c := by
  refine ⟨?_, ?_⟩
  · intro id symbol hs
    exact ⟨symbol.base, hs⟩
  · intro id symbol hs hnew
    rw [mem_typeIds, ← isSome_type?, hs] at hnew
    exact absurd rfl hnew

theorem FillsIn.mem_typeIds (f : FillsIn origin c) (hid : id ∈ origin.typeIds) :
    id ∈ c.typeIds := by
  obtain ⟨symbol, hs⟩ := exists_type?_of_mem hid
  obtain ⟨base, hs'⟩ := f.kept id symbol hs
  exact mem_typeIds_of_type? hs'

/-- A reference adds at most one type, which is plain and external. -/
theorem FillsIn.internExternal (f : FillsIn origin c) (qualifiedName : String) :
    FillsIn origin (c.internExternal qualifiedName).1 := by
  refine ⟨?_, ?_⟩
  · intro id symbol hs
    rw [type?_internExternal_of_mem qualifiedName (f.mem_typeIds (mem_typeIds_of_type? hs))]
    exact f.kept id symbol hs
  · intro id symbol hs hnew
    by_cases hold : id ∈ c.typeIds
    · rw [type?_internExternal_of_mem qualifiedName hold] at hs
      exact f.added id symbol hs hnew
    · exact (eq_of_new_internExternal qualifiedName hold hs).2

/-- A base name is looked up, and else stands for an external type. -/
theorem resolveBase_cases (c : Compilation) (id : TypeId) (baseName : String) :
    (c.resolveBase id baseName).1 = c ∨ c.resolveBase id baseName = c.internExternal baseName := by
  unfold resolveBase
  cases (c.candidateNames id baseName).findSome? c.lookup? with
  | some base => exact Or.inl rfl
  | none =>
    cases c.declaredNamed? baseName with
    | some base => exact Or.inl rfl
    | none => exact Or.inr rfl

theorem FillsIn.setBase (f : FillsIn origin c) (hid : id ∈ origin.typeIds)
    (base : Option TypeId) : FillsIn origin (c.setBase id base) := by
  have htype : ∀ other, (c.setBase id base).type? other =
      if id = other then (c.type? other).map fun symbol => { symbol with base }
      else c.type? other := fun other => c.type?_updateType id other _
  refine ⟨?_, ?_⟩
  · intro other symbol hs
    obtain ⟨base', hs'⟩ := f.kept other symbol hs
    rw [htype, hs']
    split
    · exact ⟨base, rfl⟩
    · exact ⟨base', rfl⟩
  · intro other symbol hs hnew
    have hne : id ≠ other := fun he => hnew (he ▸ hid)
    rw [htype, if_neg hne] at hs
    exact f.added other symbol hs hnew

theorem FillsIn.linkBase (f : FillsIn origin c) (hid : id ∈ origin.typeIds) (baseName : String) :
    FillsIn origin (c.linkBase id baseName) := by
  have hresolved : FillsIn origin (c.resolveBase id baseName).1 := by
    rcases c.resolveBase_cases id baseName with hsame | hexternal
    · rw [hsame]
      exact f
    · rw [hexternal]
      exact f.internExternal baseName
  exact hresolved.setBase hid _

/-- Linking bases fills them in and does no more. -/
theorem FillsIn.foldl_linkBase (f : FillsIn origin c) {noted : List (TypeId × String)}
    (hknown : ∀ p ∈ noted, p.1 ∈ origin.typeIds) :
    FillsIn origin (noted.foldl (fun c p => c.linkBase p.1 p.2) c) := by
  induction noted generalizing c with
  | nil => exact f
  | cons p rest ih =>
    rw [List.forall_mem_cons] at hknown
    exact ih (f.linkBase hknown.1 p.2) hknown.2

end Compilation

/-! ### What is noted for a class -/

section Noted

variable {α : Type} {given : Placement → Option α} {elements : List Placement}

/-- Where parts agree there is one note for a class. -/
theorem Compilation.Notes.nodup [DecidableEq α] {c : Compilation} {noted : List (TypeId × α)}
    (n : c.Notes elements given noted) (h : Agree given elements) :
    (noted.map (·.1)).Nodup := by
  have hnames := nodup_names_givenBy h
  rw [← n.values, List.map_map] at hnames
  apply List.Nodup.of_map c.fullName
  rw [List.map_map]
  exact hnames

end Noted

/-! ### The whole of linking -/

namespace Draft.Reads

variable {draft : Draft} {elements : List Placement} {around : List Tag} {id : TypeId}

/-- Levels are set, and then bases are filled in. -/
theorem fillsIn_link (r : draft.Reads elements around) :
    Compilation.FillsIn (draft.accessibilities.foldl (fun c p => c.setAccessibility p.1 p.2)
      draft.compilation) draft.link := by
  apply (Compilation.FillsIn.refl _).foldl_linkBase
  intro p hp
  have hlength : ∀ c : Compilation, (draft.accessibilities.foldl
      (fun c p => c.setAccessibility p.1 p.2) c).types.length = c.types.length := by
    intro c
    induction draft.accessibilities generalizing c with
    | nil => rfl
    | cons q rest ih =>
      rw [List.foldl_cons, ih]
      exact Compilation.length_types_updateType c q.1 _
  have hknown := r.bases.known p hp
  rw [Compilation.mem_typeIds] at hknown ⊢
  rw [hlength]
  exact hknown

/-- A class is abstract if one of its parts is, and has the level that the first of them gives which
gives one. -/
theorem type?_link (r : draft.Reads elements around) (h : Agree Placement.level? elements)
    {symbol : TypeSymbol} (hs : draft.compilation.type? id = some symbol) :
    let parts := partsOf elements (draft.compilation.fullName id)
    ∃ base, draft.link.type? id = some
      { name := symbol.name, scope := symbol.scope, base
        isAbstract := parts.any Placement.isAbstract
        accessibility := (parts.findSome? Placement.level?).getD default } := by
  have hlevelled := draft.compilation.type?_foldl_setAccessibility (r.levels.nodup h) id
  rw [hs, Option.map_some, r.levels.lookup_eq r.declares.interned
    (Compilation.mem_typeIds_of_type? hs), (r.declares.described id symbol hs).plain] at hlevelled
  exact r.fillsIn_link.kept id _ hlevelled

/-- Nothing is known of a type that is added but its name and its scope. -/
theorem link_added (r : draft.Reads elements around) (h : Agree Placement.level? elements)
    {symbol : TypeSymbol} (hs : draft.link.type? id = some symbol)
    (hnew : id ∉ draft.compilation.typeIds) :
    symbol = { name := symbol.name, scope := symbol.scope, isExternal := true } := by
  apply r.fillsIn_link.added id symbol hs
  intro hold
  rw [Compilation.mem_typeIds, ← Compilation.isSome_type?,
    draft.compilation.type?_foldl_setAccessibility (r.levels.nodup h) id, Option.isSome_map,
    Compilation.isSome_type?, ← Compilation.mem_typeIds] at hold
  exact hnew hold

end Draft.Reads

end Companion
